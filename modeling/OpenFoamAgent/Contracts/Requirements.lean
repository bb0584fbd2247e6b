/-
# Explicit assignments and cancellations

`contracts/requirements.py`: the turns of a conversation are read in their order. An explicit
assignment of a target masks the value of an earlier turn, a cancellation masks
the value and forgets the assignment; the history keeps both.

The history only grows, and the table of live assignments grows and shrinks.
`mem_requiredTargets` and `mem_cancelledTargets` say what each of them holds behind
a whole conversation, by the turns that assign and cancel the target alone.
-/
import OpenFoamAgent.Runtime.Parsers

namespace OpenFoamAgent
namespace Contracts

open Python

/-! ### Assignments and cancellations of a turn -/

/-- What the module asks of the Unicode tables of the standard library. -/
structure UnicodeTables where
  /-- The class `\w` of the `re` module. -/
  word : Char → Bool
  /-- `unicodedata.normalize("NFKC", key).casefold()`. -/
  fold : Text → Text

/-- `_ALIASES`. -/
def aliases : List (Text × Text) :=
  ["re", "reynolds", "reynolds_number", "레이놀즈수"].map fun name =>
    (name.toList, "operating.reynolds_number".toList)

variable (unicode : UnicodeTables)

/-- `canonical_target`. -/
def canonicalTarget (key : Text) : Text :=
  let normalized := unicode.fold key
  (aliases.lookup normalized).getD normalized

/-- `[\w.]+`. -/
def targetPattern : Pattern := .plus (.one fun c => unicode.word c || c == '.')

/-- `_ASSIGN`; the group `"0"` is the whole match. -/
def assignPattern : Pattern :=
  .group "0" (.all [.group "key" (targetPattern unicode), .spaces, .one fun c => c == '=' || c == ':',
    .spaces, .group "value" Runtime.numberPattern])

/-- `_QUESTION`. -/
def questionPattern : Pattern :=
  .or (.exactly "?") (.or
    (.all [.notBehind unicode.word,
      .or (.word "why") (.or (.word "would") (.word "what if")), .notAhead unicode.word])
    (.or (.exactly "왜") (.or (.exactly "어때") (.or (.exactly "일까") (.exactly "인가")))))

/-- `_CANCEL`. -/
def cancelPattern : Pattern :=
  .group "0" (.all [
    .or (.word "cancel") (.or (.word "remove") (.or (.word "delete")
      (.or (.exactly "취소") (.exactly "삭제")))),
    .spaces, .optional (.one fun c => c == ':' || c == '='), .spaces,
    .group "key" (targetPattern unicode)])

/-- `match.group(name)`, for a group that takes part in the match. -/
def groupText (m : Cursor) (name : String) : Text := (m.group name).getD []

/-- `match.end()`. -/
def matchEnd (text : Text) (m : Cursor) : ℕ := text.length - m.ahead.length

/-- `match.start()`. -/
def matchStart (text : Text) (m : Cursor) : ℕ := matchEnd text m - (groupText m "0").length

/-- An explicit assignment of a turn. -/
structure Assignment where
  target : Text
  start : ℕ
  /-- `match.span("value")`. -/
  span : ℕ × ℕ
  value : Text
  /-- The match and what stands behind it on its line, up to twelve characters. -/
  evidence : Text
  /-- `match.group(0)`. -/
  text : Text
  deriving DecidableEq

/-- An explicit cancellation of a turn. -/
structure Cancellation where
  target : Text
  start : ℕ
  text : Text
  deriving DecidableEq

/-- `bool(_QUESTION.search(text))`. -/
def isQuestion (text : Text) : Bool := ((questionPattern unicode).search text).isSome

/-- The assignment of a match; a bare name that is no alias is none. -/
def readAssignment (text : Text) (m : Cursor) : Option Assignment :=
  let rawKey := groupText m "key"
  let target := canonicalTarget unicode rawKey
  let stop := matchEnd text m
  if target ∉ aliases.map Prod.snd ∧ '.' ∉ rawKey then none
  else
    some {
      target
      start := matchStart text m
      span := (stop - (groupText m "value").length, stop)
      value := groupText m "value"
      evidence := ((text.take (stop + 12)).drop (matchStart text m)).takeWhile (· ≠ '\n')
      text := groupText m "0" }

/-- The assignments that the loop over a turn does not pass over. -/
def assignments (text : Text) : List Assignment :=
  if isQuestion unicode text then []
  else ((assignPattern unicode).findAll text).filterMap (readAssignment unicode text)

/-- The cancellations of a turn. -/
def cancellations (text : Text) : List Cancellation :=
  if isQuestion unicode text then []
  else ((cancelPattern unicode).findAll text).map fun m =>
    ⟨canonicalTarget unicode (groupText m "key"), matchStart text m, groupText m "0"⟩

/-! ### The conversation -/

/-- A row of `occurrences`. -/
structure Occurrence where
  turn : ℕ
  span : ℕ × ℕ
  evidence : Text
  value : Text
  deriving DecidableEq

inductive HistoryStatus where
  | superseded | cancelled
  deriving DecidableEq

/-- `RequirementHistory`. -/
structure RequirementHistory where
  target : Text
  status : HistoryStatus
  previousTurn : ℕ
  replacementTurn : ℕ
  previousEvidence : Text
  replacementEvidence : Text
  deriving DecidableEq

/-- The variables of `active_requirement_texts`; a mask is a turn and a span in it. -/
structure Requirements where
  occurrences : Dict Text Occurrence := ∅
  masks : List (ℕ × ℕ × ℕ) := []
  history : List RequirementHistory := []

/-- One turn of the loop over the assignments. -/
def assign (index : ℕ) (s : Requirements) (a : Assignment) : Requirements :=
  let occurrences := s.occurrences.insert a.target ⟨index, a.span, a.evidence, a.value⟩
  match s.occurrences.get a.target with
  | some prior =>
    if prior.turn ≠ index then
      { occurrences
        masks := s.masks ++ [(prior.turn, prior.span)]
        history := s.history ++
          [⟨a.target, .superseded, prior.turn, index, prior.evidence, a.text⟩] }
    else { s with occurrences }
  | none => { s with occurrences }

/-- One turn of the loop over the cancellations. -/
def cancel (index : ℕ) (s : Requirements) (c : Cancellation) : Requirements :=
  match s.occurrences.get c.target with
  | some prior =>
    { occurrences := s.occurrences.erase c.target
      masks := s.masks ++ [(prior.turn, prior.span)]
      history := s.history ++
        [⟨c.target, .cancelled, prior.turn, index, prior.evidence, c.text⟩] }
  | none => s

/-- One turn of the conversation. -/
def readTurn (s : Requirements) (turn : Text × ℕ) : Requirements :=
  (cancellations unicode turn.1).foldl (cancel turn.2)
    ((assignments unicode turn.1).foldl (assign turn.2) s)

/-- The loop of `active_requirement_texts`. -/
def readTurns (turns : List Text) : Requirements :=
  turns.zipIdx.foldl (readTurn unicode) {}

/-- `chars[start:end] = " " * (end-start)`. -/
def mask (text : Text) (span : ℕ × ℕ) : Text :=
  text.take span.1 ++ List.replicate (span.2 - span.1) ' ' ++ text.drop span.2

/-- The turns with their masked values: the first result of `active_requirement_texts`. -/
def activeTexts (turns : List Text) : List Text :=
  turns.zipIdx.map fun turn =>
    (((readTurns unicode turns).masks.filter fun m => m.1 = turn.2).map Prod.snd).foldl mask turn.1

/-- The targets with a live assignment. -/
def requiredTargets (turns : List Text) : List Text := (readTurns unicode turns).occurrences.keys

/-- The targets of the cancelled rows of the history. -/
def cancelledTargets (turns : List Text) : List Text :=
  ((readTurns unicode turns).history.filter fun row => row.status = .cancelled).map
    RequirementHistory.target

/-- The tables for ASCII text. -/
def asciiTables : UnicodeTables := ⟨isAsciiWord, casefold⟩

/-- A later value masks the earlier one, a question changes nothing, a cancellation masks too. -/
example :
    activeTexts asciiTables ["Re=1000".toList, "Re = 2e3, why not?".toList, "re: 2e3".toList] =
        ["Re=    ".toList, "Re = 2e3, why not?".toList, "re: 2e3".toList] ∧
      requiredTargets asciiTables ["Re=1000".toList, "p=5".toList] =
        ["operating.reynolds_number".toList] ∧
      cancelledTargets asciiTables ["a.b=1000".toList, "cancel A.b".toList] = ["a.b".toList] := by
  decide +kernel

/-! ### What a turn does -/

/-- A turn assigns a target. -/
def Assigns (text t : Text) : Prop := ∃ a ∈ assignments unicode text, a.target = t

/-- A turn cancels a target. -/
def Cancels (text t : Text) : Prop := ∃ c ∈ cancellations unicode text, c.target = t

/-- A target has a live assignment. -/
def Requirements.Live (s : Requirements) (t : Text) : Prop := t ∈ s.occurrences

/-- The history holds a cancelled row for a target. -/
def Requirements.Cancelled (s : Requirements) (t : Text) : Prop :=
  ∃ row ∈ s.history, row.status = .cancelled ∧ row.target = t

theorem assign_live (index : ℕ) (s : Requirements) (a : Assignment) (t : Text) :
    (assign index s a).Live t ↔ s.Live t ∨ a.target = t := by
  have hinsert : ∀ o : Occurrence, t ∈ s.occurrences.insert a.target o ↔ s.Live t ∨ a.target = t := by
    intro o
    rw [AList.mem_insert, or_comm, eq_comm]
    rfl
  unfold assign Requirements.Live
  split
  · split
    · exact hinsert _
    · exact hinsert _
  · exact hinsert _

theorem assign_cancelled (index : ℕ) (s : Requirements) (a : Assignment) (t : Text) :
    (assign index s a).Cancelled t ↔ s.Cancelled t := by
  unfold assign Requirements.Cancelled
  split
  · split
    · constructor
      · rintro ⟨row, hrow, hstatus, htarget⟩
        rcases List.mem_append.1 hrow with hrow | hrow
        · exact ⟨row, hrow, hstatus, htarget⟩
        · obtain rfl := List.mem_singleton.1 hrow
          cases hstatus
      · rintro ⟨row, hrow, h⟩
        exact ⟨row, List.mem_append_left _ hrow, h⟩
    · rfl
  · rfl

theorem cancel_live (index : ℕ) (s : Requirements) (c : Cancellation) (t : Text) :
    (cancel index s c).Live t ↔ s.Live t ∧ c.target ≠ t := by
  unfold cancel Requirements.Live
  split
  · rw [AList.mem_erase, and_comm, ne_comm]
  · rename_i hnone
    refine ⟨fun h => ⟨h, ?_⟩, And.left⟩
    rintro rfl
    rw [← Dict.get_isSome, hnone] at h
    cases h

theorem cancel_cancelled (index : ℕ) (s : Requirements) (c : Cancellation) (t : Text) :
    (cancel index s c).Cancelled t ↔ s.Cancelled t ∨ (s.Live t ∧ c.target = t) := by
  unfold cancel Requirements.Cancelled
  split
  · rename_i prior hprior
    have hlive : s.Live c.target := by
      unfold Requirements.Live
      rw [← Dict.get_isSome, hprior]
      rfl
    constructor
    · rintro ⟨row, hrow, hstatus, htarget⟩
      rcases List.mem_append.1 hrow with hrow | hrow
      · exact .inl ⟨row, hrow, hstatus, htarget⟩
      · obtain rfl := List.mem_singleton.1 hrow
        exact .inr ⟨htarget ▸ hlive, htarget⟩
    · rintro (⟨row, hrow, h⟩ | ⟨_, htarget⟩)
      · exact ⟨row, List.mem_append_left _ hrow, h⟩
      · exact ⟨_, List.mem_append_right _ List.mem_cons_self, rfl, htarget⟩
  · rename_i hnone
    refine ⟨.inl, fun h => h.resolve_right ?_⟩
    rintro ⟨hlive, rfl⟩
    unfold Requirements.Live at hlive
    rw [← Dict.get_isSome, hnone] at hlive
    cases hlive

theorem assigns_live (index : ℕ) (as : List Assignment) (s : Requirements) (t : Text) :
    ((as.foldl (assign index) s).Live t ↔ s.Live t ∨ ∃ a ∈ as, a.target = t) ∧
      ((as.foldl (assign index) s).Cancelled t ↔ s.Cancelled t) := by
  induction as generalizing s with
  | nil => simp
  | cons a as ih =>
    obtain ⟨hlive, hcancelled⟩ := ih (assign index s a)
    rw [List.foldl_cons, hlive, hcancelled, assign_live, assign_cancelled]
    simp [or_assoc]

theorem cancels_live (index : ℕ) (cs : List Cancellation) (s : Requirements) (t : Text) :
    ((cs.foldl (cancel index) s).Live t ↔ s.Live t ∧ ¬ ∃ c ∈ cs, c.target = t) ∧
      ((cs.foldl (cancel index) s).Cancelled t ↔
        s.Cancelled t ∨ (s.Live t ∧ ∃ c ∈ cs, c.target = t)) := by
  induction cs generalizing s with
  | nil => simp
  | cons c cs ih =>
    obtain ⟨hlive, hcancelled⟩ := ih (cancel index s c)
    rw [List.foldl_cons, hlive, hcancelled, cancel_live, cancel_cancelled]
    by_cases hc : c.target = t
    · simp [hc]
    · simp [hc]

/-- A turn makes its assignments live, and cancels what is live then. -/
theorem readTurn_spec (s : Requirements) (turn : Text × ℕ) (t : Text) :
    ((readTurn unicode s turn).Live t ↔
        (s.Live t ∨ Assigns unicode turn.1 t) ∧ ¬ Cancels unicode turn.1 t) ∧
      ((readTurn unicode s turn).Cancelled t ↔
        s.Cancelled t ∨ ((s.Live t ∨ Assigns unicode turn.1 t) ∧ Cancels unicode turn.1 t)) := by
  obtain ⟨hlive, hcancelled⟩ := cancels_live turn.2 (cancellations unicode turn.1)
    ((assignments unicode turn.1).foldl (assign turn.2) s) t
  obtain ⟨hassigned, hkept⟩ := assigns_live turn.2 (assignments unicode turn.1) s t
  rw [hassigned] at hlive hcancelled
  rw [hkept] at hcancelled
  exact ⟨hlive, hcancelled⟩

/-! ### What a conversation leaves -/

/-- The turn at a position assigns the target. -/
def AssignsAt (turns : List Text) (t : Text) (i : ℕ) : Prop :=
  ∃ text ∈ turns[i]?, Assigns unicode text t

/-- The turn at a position cancels the target. -/
def CancelsAt (turns : List Text) (t : Text) (i : ℕ) : Prop :=
  ∃ text ∈ turns[i]?, Cancels unicode text t

theorem at_concat {P : Text → Prop} (turns : List Text) (text : Text) (i : ℕ) :
    (∃ x ∈ (turns ++ [text])[i]?, P x) ↔
      (∃ x ∈ turns[i]?, P x) ∨ (i = turns.length ∧ P text) := by
  rcases Nat.lt_trichotomy i turns.length with hlt | rfl | hgt
  · rw [List.getElem?_append_left hlt]
    simp [Nat.ne_of_lt hlt]
  · rw [List.getElem?_concat_length]
    simp
  · rw [List.getElem?_eq_none (by simp; omega), List.getElem?_eq_none (by omega)]
    simp [Nat.ne_of_gt hgt]

theorem lt_of_at {P : Text → Prop} {turns : List Text} {i : ℕ} (h : ∃ x ∈ turns[i]?, P x) :
    i < turns.length := by
  obtain ⟨x, hx, _⟩ := h
  exact (List.getElem?_eq_some_iff.1 hx).1

theorem readTurns_concat (turns : List Text) (text : Text) :
    readTurns unicode (turns ++ [text]) =
      readTurn unicode (readTurns unicode turns) (text, turns.length) := by
  unfold readTurns
  rw [List.zipIdx_append, List.foldl_append]
  simp

/-- A target is live when no turn cancels it from one of its assignments on. -/
theorem live_iff (turns : List Text) (t : Text) :
    (readTurns unicode turns).Live t ↔
      ∃ j, AssignsAt unicode turns t j ∧ ∀ i, j ≤ i → ¬ CancelsAt unicode turns t i := by
  induction turns using List.reverseRecOn with
  | nil => simp [readTurns, Requirements.Live, AssignsAt]
  | append_singleton turns text ih =>
    rw [readTurns_concat, (readTurn_spec unicode _ _ t).1, ih]
    unfold AssignsAt CancelsAt
    simp only [at_concat]
    constructor
    · rintro ⟨⟨j, hj, hnone⟩ | hassigns, hcancels⟩
      · refine ⟨j, .inl hj, fun i hji h => ?_⟩
        rcases h with h | ⟨_, h⟩
        · exact hnone i hji h
        · exact hcancels h
      · refine ⟨turns.length, .inr ⟨rfl, hassigns⟩, fun i hji h => ?_⟩
        rcases h with h | ⟨_, h⟩
        · exact absurd (lt_of_at h) (by omega)
        · exact hcancels h
    · rintro ⟨j, hj | ⟨rfl, hassigns⟩, hnone⟩
      · have hle : j ≤ turns.length := Nat.le_of_lt (lt_of_at hj)
        exact ⟨.inl ⟨j, hj, fun i hji h => hnone i hji (.inl h)⟩,
          fun h => hnone _ hle (.inr ⟨rfl, h⟩)⟩
      · exact ⟨.inr hassigns, fun h => hnone _ le_rfl (.inr ⟨rfl, h⟩)⟩

/-- The history holds a target as cancelled when a turn cancels it that assigns it, or behind one
that does. -/
theorem cancelled_iff (turns : List Text) (t : Text) :
    (readTurns unicode turns).Cancelled t ↔
      ∃ i j, j ≤ i ∧ AssignsAt unicode turns t j ∧ CancelsAt unicode turns t i := by
  induction turns using List.reverseRecOn with
  | nil => simp [readTurns, Requirements.Cancelled, AssignsAt]
  | append_singleton turns text ih =>
    rw [readTurns_concat, (readTurn_spec unicode _ _ t).2, ih, live_iff]
    unfold AssignsAt CancelsAt
    simp only [at_concat]
    constructor
    · rintro (⟨i, j, hji, hj, hi⟩ | ⟨⟨j, hj, _⟩ | hassigns, hcancels⟩)
      · exact ⟨i, j, hji, .inl hj, .inl hi⟩
      · exact ⟨turns.length, j, Nat.le_of_lt (lt_of_at hj), .inl hj, .inr ⟨rfl, hcancels⟩⟩
      · exact ⟨turns.length, turns.length, le_rfl, .inr ⟨rfl, hassigns⟩, .inr ⟨rfl, hcancels⟩⟩
    · rintro ⟨i, j, hji, hj, hi | ⟨rfl, hcancels⟩⟩
      · have hlt := lt_of_at hi
        rcases hj with hj | ⟨rfl, _⟩
        · exact .inl ⟨i, j, hji, hj, hi⟩
        · omega
      · rcases hj with hj | ⟨_, hassigns⟩
        · by_cases hnone : ∀ i, j ≤ i → ¬ ∃ x ∈ turns[i]?, Cancels unicode x t
          · exact .inr ⟨.inl ⟨j, hj, hnone⟩, hcancels⟩
          · push Not at hnone
            obtain ⟨i, hji, hi⟩ := hnone
            exact .inl ⟨i, j, hji, hj, hi⟩
        · exact .inr ⟨.inr hassigns, hcancels⟩

theorem mem_requiredTargets {turns : List Text} {t : Text} :
    t ∈ requiredTargets unicode turns ↔
      ∃ j, AssignsAt unicode turns t j ∧ ∀ i, j ≤ i → ¬ CancelsAt unicode turns t i :=
  live_iff unicode turns t

theorem mem_cancelledTargets {turns : List Text} {t : Text} :
    t ∈ cancelledTargets unicode turns ↔
      ∃ i j, j ≤ i ∧ AssignsAt unicode turns t j ∧ CancelsAt unicode turns t i := by
  rw [← cancelled_iff]
  unfold cancelledTargets Requirements.Cancelled
  simp [List.mem_map, List.mem_filter, and_assoc]

/-! ### Surviving assignments -/

/-- The last assignment of a target in a turn. -/
def lastAssignment (text t : Text) : Option Assignment :=
  ((assignments unicode text).filter fun a => a.target = t).getLast?

/-- The row is that of the latest assignment of the target, and no cancellation follows it. -/
def Survives (turns : List Text) (t : Text) (o : Occurrence) : Prop :=
  (∃ text ∈ turns[o.turn]?, ∃ a ∈ lastAssignment unicode text t,
    o = ⟨o.turn, a.span, a.evidence, a.value⟩) ∧
    (∀ i, o.turn < i → ¬ AssignsAt unicode turns t i) ∧
    ∀ i, o.turn ≤ i → ¬ CancelsAt unicode turns t i

theorem assign_get (index : ℕ) (s : Requirements) (a : Assignment) (t : Text) :
    (assign index s a).occurrences.get t =
      if a.target = t then some ⟨index, a.span, a.evidence, a.value⟩ else s.occurrences.get t := by
  have hinsert : Dict.get (s.occurrences.insert a.target ⟨index, a.span, a.evidence, a.value⟩) t =
      if a.target = t then some ⟨index, a.span, a.evidence, a.value⟩ else s.occurrences.get t := by
    split_ifs with ht
    · rw [ht, Dict.get_insert_self]
    · exact Dict.get_insert_of_ne _ _ (Ne.symm ht)
  unfold assign
  split
  · split
    · exact hinsert
    · exact hinsert
  · exact hinsert

theorem assigns_get (index : ℕ) (as : List Assignment) (s : Requirements) (t : Text) :
    (as.foldl (assign index) s).occurrences.get t =
      (((as.filter fun a => a.target = t).getLast?).map fun a =>
        (⟨index, a.span, a.evidence, a.value⟩ : Occurrence)).or (s.occurrences.get t) := by
  induction as using List.reverseRecOn with
  | nil => rfl
  | append_singleton as a ih =>
    rw [List.foldl_append, List.foldl_cons, List.foldl_nil, assign_get, ih, List.filter_append]
    by_cases ht : a.target = t
    · simp [ht]
    · simp [ht]

theorem cancels_get (index : ℕ) {cs : List Cancellation} (s : Requirements) {t : Text}
    (h : ∀ c ∈ cs, c.target ≠ t) :
    (cs.foldl (cancel index) s).occurrences.get t = s.occurrences.get t := by
  induction cs generalizing s with
  | nil => rfl
  | cons c cs ih =>
    rw [List.foldl_cons, ih _ fun c' hc' => h c' (List.mem_cons_of_mem _ hc')]
    unfold cancel
    split
    · exact Dict.get_erase_of_ne _ (h c List.mem_cons_self).symm
    · rfl

/-- The table holds the surviving assignments. -/
theorem get_of_survives {turns : List Text} {t : Text} {o : Occurrence}
    (h : Survives unicode turns t o) : (readTurns unicode turns).occurrences.get t = some o := by
  induction turns using List.reverseRecOn with
  | nil =>
    obtain ⟨⟨text, htext, _⟩, _⟩ := h
    cases htext
  | append_singleton turns text ih =>
    obtain ⟨⟨text', htext', a, ha, ho⟩, hlater, hcancels⟩ := h
    have hlast : ∀ c ∈ cancellations unicode text, c.target ≠ t := by
      intro c hc ht
      have hle : o.turn ≤ turns.length := by
        have := lt_of_at (P := fun _ => True) ⟨text', htext', trivial⟩
        simp only [List.length_append, List.length_singleton] at this
        omega
      refine hcancels turns.length hle ?_
      unfold CancelsAt
      rw [at_concat]
      exact .inr ⟨rfl, c, hc, ht⟩
    rw [readTurns_concat]
    unfold readTurn
    rw [cancels_get _ _ hlast, assigns_get]
    rcases (at_concat (P := fun x => x = text') turns text o.turn).1 ⟨text', htext', rfl⟩ with
      ⟨_, hmem, rfl⟩ | ⟨hturn, rfl⟩
    · -- an earlier turn: this one neither assigns nor cancels
      have hlt := lt_of_at (P := fun _ => True) ⟨_, hmem, trivial⟩
      have hnone : (assignments unicode text).filter (fun a => a.target = t) = [] := by
        refine List.filter_eq_nil_iff.2 fun b hb ht => ?_
        refine hlater turns.length hlt ?_
        unfold AssignsAt
        rw [at_concat]
        exact .inr ⟨rfl, b, hb, of_decide_eq_true ht⟩
      rw [hnone]
      refine ih ⟨⟨_, hmem, a, ha, ho⟩, fun i hi hassigns => hlater i hi ?_,
        fun i hi hcancel => hcancels i hi ?_⟩
      · unfold AssignsAt
        rw [at_concat]
        exact .inl hassigns
      · unfold CancelsAt
        rw [at_concat]
        exact .inl hcancel
    · have hlastAssignment : ((assignments unicode text).filter fun a => a.target = t).getLast? =
          some a := ha
      rw [hlastAssignment, ← hturn]
      exact congrArg some ho.symm

end Contracts
end OpenFoamAgent
