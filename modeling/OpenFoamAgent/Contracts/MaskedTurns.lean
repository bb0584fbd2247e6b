/-
# Masked values

`active_requirement_texts` as a whole: which values of the turns are blanked. The values of
a turn stand apart (`pairwise_assignments`), so a blank stands exactly where a mask is
(`blank_iff`), and a mask is there for the last assignment of a target in a turn that the turn
itself cancels, wherever it does, or that a later turn assigns or cancels (`mem_masks`).

So an earlier one of two assignments in one turn is never masked, and a cancellation in
front of an assignment in the same turn masks it. `faithful_iff` says for which conversations
this makes no difference.
-/
import OpenFoamAgent.Contracts.Requirements
import OpenFoamAgent.Python.RegexSpans

namespace OpenFoamAgent
namespace Contracts

open Python

variable (unicode : UnicodeTables)

/-! ### The values of a turn -/

/-- What a match of `_ASSIGN` says of its value. -/
theorem assign_match {s m : Cursor} (h : m ∈ (assignPattern unicode).run s) :
    ∃ u : Cursor, u.ahead <:+ s.ahead ∧
      Pattern.Reads (fun c => Runtime.numberPattern.accepts c) u m ∧
      m.ahead.length < u.ahead.length ∧ groupText m "value" = u.read m ∧
      groupText m "0" = s.read m := by
  obtain ⟨t, ht, rfl⟩ := List.mem_map.1 h
  obtain ⟨a, ha, ht⟩ := List.mem_flatMap.1 ht
  obtain ⟨b, hb, ht⟩ := List.mem_flatMap.1 ht
  obtain ⟨c, hc, ht⟩ := List.mem_flatMap.1 ht
  obtain ⟨u, hu, ht⟩ := List.mem_flatMap.1 ht
  obtain ⟨v, hv, ht⟩ := List.mem_flatMap.1 ht
  obtain rfl := List.mem_singleton.1 ht
  obtain ⟨w, hw, rfl⟩ := List.mem_map.1 hv
  refine ⟨u, ?_, ?_, ?_, rfl, rfl⟩
  · exact (Pattern.run_reads hu).suffix.trans ((Pattern.run_reads hc).suffix.trans
      ((Pattern.run_reads hb).suffix.trans (Pattern.run_reads ha).suffix))
  · have hread := Pattern.run_reads hw
    exact hread
  · have hlt := Pattern.run_length_lt (p := Runtime.numberPattern) rfl hw
    exact hlt

/-- An assignment stands in a turn as its fields say. -/
structure Placed (text : Text) (a : Assignment) : Prop where
  start_le : a.start ≤ a.span.1
  nonempty : a.span.1 < a.span.2
  stop_le : a.span.2 ≤ text.length
  value : (text.take a.span.2).drop a.span.1 = a.value
  solid : ∀ c ∈ a.value, c ≠ ' '

theorem readAssignment_eq_some {text : Text} {m : Cursor} {a : Assignment}
    (h : readAssignment unicode text m = some a) :
    a.start = matchStart text m ∧
      a.span = (matchEnd text m - (groupText m "value").length, matchEnd text m) ∧
      a.value = groupText m "value" := by
  rw [readAssignment] at h
  by_cases hbare : canonicalTarget unicode (groupText m "key") ∉ aliases.map Prod.snd ∧
      '.' ∉ groupText m "key"
  · rw [if_pos hbare] at h
    cases h
  · rw [if_neg hbare] at h
    obtain rfl := Option.some.inj h
    exact ⟨rfl, rfl, rfl⟩

/-- Where the assignment of a match stands. -/
theorem placed_of_match {text : Text} {s m : Cursor} {a : Assignment}
    (hmatch : (assignPattern unicode).MatchIn text s m)
    (h : readAssignment unicode text m = some a) :
    Placed text a ∧ a.start = text.length - s.ahead.length ∧
      a.span.2 = text.length - m.ahead.length := by
  obtain ⟨hs, -, hrun⟩ := hmatch
  obtain ⟨u, hu, ⟨v, hv, haccepts⟩, hlt, hvalue, hwhole⟩ := assign_match unicode hrun
  obtain ⟨hstart, hspan, ha⟩ := readAssignment_eq_some unicode h
  obtain ⟨front, hfront⟩ := hu.trans hs
  have hms := (Pattern.run_reads hrun).suffix.length_le
  have hsu := hu.length_le
  have hst := hs.length_le
  have hread : u.read m = v := by
    rw [Cursor.read, hv, List.length_append, Nat.add_sub_cancel, List.take_left]
  have hlength : u.ahead.length = v.length + m.ahead.length := by rw [hv, List.length_append]
  have htotal : text.length = front.length + u.ahead.length := by
    rw [← hfront, List.length_append]
  have hwholeLength : (groupText m "0").length = s.ahead.length - m.ahead.length := by
    rw [hwhole, Cursor.read, List.length_take]
    omega
  have hstop : matchEnd text m = front.length + v.length := by
    rw [matchEnd]
    omega
  have hbegin : a.start = text.length - s.ahead.length := by
    rw [hstart, matchStart, hwholeLength, matchEnd]
    omega
  rw [hvalue, hread, hstop, Nat.add_sub_cancel] at hspan
  rw [hvalue, hread] at ha
  refine ⟨⟨?_, ?_, ?_, ?_, fun c hc hblank => ?_⟩, hbegin, ?_⟩
  · rw [hbegin, hspan]
    dsimp only
    omega
  · rw [hspan]
    dsimp only
    omega
  · rw [hspan]
    dsimp only
    omega
  · rw [hspan, ha, ← hfront, hv, ← List.append_assoc]
    dsimp only
    rw [← List.length_append, List.take_left, List.drop_left]
  · subst hblank
    have hnever : Runtime.numberPattern.accepts ' ' = false := by decide
    rw [ha] at hc
    exact Bool.false_ne_true (hnever.symm.trans (haccepts _ hc))
  · rw [hspan]
    dsimp only
    omega

theorem placed_assignments {text : Text} {a : Assignment} (h : a ∈ assignments unicode text) :
    Placed text a := by
  rw [assignments] at h
  split_ifs at h
  · cases h
  · obtain ⟨m, hm, ha⟩ := List.mem_filterMap.1 h
    obtain ⟨s, hmatch⟩ := Pattern.exists_of_mem_findAll hm
    exact (placed_of_match unicode hmatch ha).1

/-- **The assignments of a turn stand one behind the other.** -/
theorem pairwise_assignments (text : Text) :
    (assignments unicode text).Pairwise fun a b => a.span.2 ≤ b.start := by
  rw [assignments]
  split_ifs
  · exact .nil
  · rw [List.pairwise_filterMap]
    have hpairs := Pattern.pairwise_findAll (assignPattern unicode) text
    refine hpairs.imp_of_mem fun {m m'} hm hm' hnext a ha b hb => ?_
    obtain ⟨s, hmatch⟩ := Pattern.exists_of_mem_findAll hm
    obtain ⟨s', hs', hgroups, hrun⟩ := hnext
    have hsuffix : m.ahead <:+ text :=
      (Pattern.run_reads hmatch.2.2).suffix.trans hmatch.1
    rw [(placed_of_match unicode hmatch ha).2.2,
      (placed_of_match unicode ⟨hs'.trans hsuffix, hgroups, hrun⟩ hb).2.1]
    have := hs'.length_le
    omega

/-- Two assignments of a turn are the same, or their values stand apart. -/
theorem eq_or_apart {text : Text} {a b : Assignment} (ha : a ∈ assignments unicode text)
    (hb : b ∈ assignments unicode text) :
    a = b ∨ (a.span.2 ≤ b.span.1 ∧ a.start < b.start) ∨
      (b.span.2 ≤ a.span.1 ∧ b.start < a.start) := by
  have hle : ∀ {x y : Assignment}, Placed text x → Placed text y → x.span.2 ≤ y.start →
      x.span.2 ≤ y.span.1 ∧ x.start < y.start := by
    intro x y hx hy h
    have := hx.start_le
    have := hx.nonempty
    have := hy.start_le
    omega
  have hpa := placed_assignments unicode ha
  have hpb := placed_assignments unicode hb
  obtain ⟨i, hi, rfl⟩ := List.getElem_of_mem ha
  obtain ⟨j, hj, rfl⟩ := List.getElem_of_mem hb
  have hpairs := List.pairwise_iff_getElem.1 (pairwise_assignments unicode text)
  rcases Nat.lt_trichotomy i j with hlt | rfl | hgt
  · exact .inr (.inl (hle hpa hpb (hpairs i j hi hj hlt)))
  · exact .inl rfl
  · exact .inr (.inr (hle hpb hpa (hpairs j i hj hi hgt)))

theorem lastAssignment_eq_some {text t : Text} {a : Assignment} :
    lastAssignment unicode text t = some a ↔ a ∈ assignments unicode text ∧ a.target = t ∧
      ∀ b ∈ assignments unicode text, b.target = t → ¬ a.start < b.start := by
  have hlast : ∀ {z : Assignment}, lastAssignment unicode text t = some z →
      z ∈ assignments unicode text ∧ z.target = t ∧
        ∀ b ∈ assignments unicode text, b.target = t → ¬ z.start < b.start := by
    intro z hz
    obtain ⟨ys, hys⟩ := List.getLast?_eq_some_iff.1 hz
    have hmem : ∀ b, b ∈ assignments unicode text ∧ b.target = t ↔ b ∈ ys ++ [z] := by
      intro b
      rw [← hys, List.mem_filter, decide_eq_true_iff]
    obtain ⟨hz, htarget⟩ := (hmem z).2 (List.mem_append_right _ List.mem_cons_self)
    refine ⟨hz, htarget, fun b hb hbt => ?_⟩
    have hsorted := (pairwise_assignments unicode text).filter (fun b => b.target = t)
    rw [hys, List.pairwise_append] at hsorted
    rcases List.mem_append.1 ((hmem b).1 ⟨hb, hbt⟩) with hb' | hb'
    · have hbefore := hsorted.2.2 b hb' z List.mem_cons_self
      have hp := placed_assignments unicode hb
      have := hp.start_le
      have := hp.nonempty
      omega
    · rw [List.mem_singleton.1 hb']
      exact lt_irrefl _
  refine ⟨hlast, fun ⟨ha, htarget, hlater⟩ => ?_⟩
  cases hz : lastAssignment unicode text t with
  | none =>
    have hnil := List.getLast?_eq_none_iff.1 hz
    exact absurd (decide_eq_true htarget) (List.filter_eq_nil_iff.1 hnil a ha)
  | some z =>
    obtain ⟨hmem, hzt, hzlast⟩ := hlast hz
    rcases eq_or_apart unicode ha hmem with rfl | ⟨-, hlt⟩ | ⟨-, hlt⟩
    · rfl
    · exact absurd hlt (hlater z hmem hzt)
    · exact absurd hlt (hzlast a ha htarget)

theorem exists_lastAssignment {text t : Text} (h : Assigns unicode text t) :
    ∃ a, lastAssignment unicode text t = some a := by
  obtain ⟨a, ha, htarget⟩ := h
  refine Option.ne_none_iff_exists'.1 fun hnone => ?_
  exact List.filter_eq_nil_iff.1 (List.getLast?_eq_none_iff.1 hnone) a ha (decide_eq_true htarget)

/-! ### The table -/

instance (text t : Text) : Decidable (Assigns unicode text t) :=
  inferInstanceAs (Decidable (∃ a ∈ assignments unicode text, a.target = t))

instance (text t : Text) : Decidable (Cancels unicode text t) :=
  inferInstanceAs (Decidable (∃ c ∈ cancellations unicode text, c.target = t))

/-- The table behind one more turn. -/
theorem get_concat (turns : List Text) (text t : Text) :
    (readTurns unicode (turns ++ [text])).occurrences.get t =
      if Cancels unicode text t then none
      else ((lastAssignment unicode text t).map fun a =>
        (⟨turns.length, a.span, a.evidence, a.value⟩ : Occurrence)).or
          ((readTurns unicode turns).occurrences.get t) := by
  rw [readTurns_concat]
  by_cases hcancels : Cancels unicode text t
  · rw [if_pos hcancels, ← Option.not_isSome_iff_eq_none, Dict.get_isSome]
    intro hlive
    have hspec := ((readTurn_spec unicode (readTurns unicode turns) (text, turns.length) t).1.1 hlive).2
    exact hspec hcancels
  · rw [if_neg hcancels, readTurn, cancels_get _ _ fun c hc ht => hcancels ⟨c, hc, ht⟩, assigns_get]
    rfl

/-- **The table holds the surviving assignments, and no others.** -/
theorem get_iff_survives {turns : List Text} {t : Text} {o : Occurrence} :
    (readTurns unicode turns).occurrences.get t = some o ↔ Survives unicode turns t o := by
  refine ⟨fun h => ?_, get_of_survives unicode⟩
  induction turns using List.reverseRecOn with
  | nil => cases h
  | append_singleton turns text ih =>
    rw [get_concat] at h
    by_cases hcancels : Cancels unicode text t
    · rw [if_pos hcancels] at h
      cases h
    rw [if_neg hcancels] at h
    have hcancelsAt : ∀ i, CancelsAt unicode (turns ++ [text]) t i → CancelsAt unicode turns t i := by
      intro i hi
      unfold CancelsAt at hi
      rw [at_concat] at hi
      exact hi.resolve_right fun h => hcancels h.2
    cases hlast : lastAssignment unicode text t with
    | some a =>
      rw [hlast] at h
      obtain rfl := Option.some.inj h
      refine ⟨⟨text, by simp, a, hlast, rfl⟩, fun i hi hassigns => ?_, fun i hi hcancel => ?_⟩
      · have := lt_of_at hassigns
        rw [List.length_append, List.length_singleton] at this
        dsimp only at hi
        omega
      · have := lt_of_at (hcancelsAt i hcancel)
        dsimp only at hi
        omega
    | none =>
      rw [hlast, Option.map_none, Option.none_or] at h
      obtain ⟨⟨text', htext', ho⟩, hassigns, hcancel⟩ := ih h
      have hassignsAt : ∀ i, AssignsAt unicode (turns ++ [text]) t i → AssignsAt unicode turns t i := by
        intro i hi
        unfold AssignsAt at hi
        rw [at_concat] at hi
        refine hi.resolve_right fun h => ?_
        obtain ⟨a, ha⟩ := exists_lastAssignment unicode h.2
        rw [hlast] at ha
        cases ha
      refine ⟨⟨text', ?_, ho⟩, fun i hi h => hassigns i hi (hassignsAt i h),
        fun i hi h => hcancel i hi (hcancelsAt i h)⟩
      have hlt := lt_of_at (P := fun _ => True) ⟨text', htext', trivial⟩
      rwa [List.getElem?_append_left hlt]

/-! ### The masks -/

theorem assigns_masks {index : ℕ} {s : Requirements}
    (hs : ∀ t o, s.occurrences.get t = some o → o.turn ≠ index) (as : List Assignment)
    (m : ℕ × ℕ × ℕ) :
    m ∈ (as.foldl (assign index) s).masks ↔ m ∈ s.masks ∨
      ∃ a ∈ as, ∃ o, s.occurrences.get a.target = some o ∧ m = (o.turn, o.span) := by
  induction as using List.reverseRecOn with
  | nil => simp
  | append_singleton as a ih =>
    have hget := assigns_get index as s a.target
    rw [List.foldl_concat]
    generalize as.foldl (assign index) s = s' at hget ih ⊢
    have hold : (∃ b ∈ as ++ [a], ∃ o, s.occurrences.get b.target = some o ∧ m = (o.turn, o.span)) ↔
        (∃ b ∈ as, ∃ o, s.occurrences.get b.target = some o ∧ m = (o.turn, o.span)) ∨
          ∃ o, s.occurrences.get a.target = some o ∧ m = (o.turn, o.span) := by
      simp [or_and_right, exists_or]
    rw [hold, ← or_assoc, ← ih]
    cases hlast : (as.filter fun b => b.target = a.target).getLast? with
    | some b =>
      -- an assignment of the same turn came before: its target is masked already
      rw [hlast] at hget
      have hmask : (assign index s' a).masks = s'.masks := by
        rw [assign, hget]
        simp
      rw [hmask]
      refine ⟨.inl, ?_⟩
      rintro (h | ⟨o, ho, hm⟩)
      · exact h
      refine ih.2 (.inr ?_)
      have hb := List.mem_of_getLast? hlast
      rw [List.mem_filter, decide_eq_true_iff] at hb
      exact ⟨b, hb.1, o, hb.2 ▸ ho, hm⟩
    | none =>
      rw [hlast, Option.map_none, Option.none_or] at hget
      cases ho : s.occurrences.get a.target with
      | none =>
        rw [ho] at hget
        have hmask : (assign index s' a).masks = s'.masks := by rw [assign, hget]
        rw [hmask]
        simp
      | some o =>
        rw [ho] at hget
        have hmask : (assign index s' a).masks = s'.masks ++ [(o.turn, o.span)] := by
          rw [assign, hget]
          dsimp only
          rw [if_pos (hs _ _ ho)]
        rw [hmask, List.mem_append, List.mem_singleton]
        simp

theorem cancels_masks (index : ℕ) (cs : List Cancellation) (s : Requirements) (m : ℕ × ℕ × ℕ) :
    m ∈ (cs.foldl (cancel index) s).masks ↔ m ∈ s.masks ∨
      ∃ c ∈ cs, ∃ o, s.occurrences.get c.target = some o ∧ m = (o.turn, o.span) := by
  induction cs generalizing s with
  | nil => simp
  | cons c cs ih =>
    rw [List.foldl_cons, ih]
    cases ho : s.occurrences.get c.target with
    | none =>
      have hsame : cancel index s c = s := by rw [cancel, ho]
      rw [hsame]
      simp [ho]
    | some o =>
      have hmasks : (cancel index s c).masks = s.masks ++ [(o.turn, o.span)] := by
        rw [cancel, ho]
      have hget : ∀ t, (cancel index s c).occurrences.get t =
          if t = c.target then none else s.occurrences.get t := by
        intro t
        rw [cancel, ho]
        dsimp only
        split_ifs with ht
        · rw [ht, Dict.get_erase_self]
        · rw [Dict.get_erase_of_ne _ ht]
      rw [hmasks, List.mem_append, List.mem_singleton]
      constructor
      · rintro ((hm | hm) | ⟨c', hc', o', ho', hm⟩)
        · exact .inl hm
        · exact .inr ⟨c, List.mem_cons_self, o, ho, hm⟩
        · rw [hget] at ho'
          split_ifs at ho' with ht
          exact .inr ⟨c', List.mem_cons_of_mem _ hc', o', ho', hm⟩
      · rintro (hm | ⟨c', hc', o', ho', hm⟩)
        · exact .inl (.inl hm)
        · by_cases ht : c'.target = c.target
          · rw [ht, ho] at ho'
            obtain rfl := Option.some.inj ho'
            exact .inl (.inr hm)
          · rcases List.mem_cons.1 hc' with rfl | hc'
            · exact absurd rfl ht
            · exact .inr ⟨c', hc', o', by rw [hget, if_neg ht, ho'], hm⟩

/-- A turn behind a position assigns or cancels the target. -/
def TouchedAfter (turns : List Text) (t : Text) (i : ℕ) : Prop :=
  ∃ j, i < j ∧ (AssignsAt unicode turns t j ∨ CancelsAt unicode turns t j)

theorem touchedAfter_concat (turns : List Text) (text t : Text) (i : ℕ) :
    TouchedAfter unicode (turns ++ [text]) t i ↔ TouchedAfter unicode turns t i ∨
      (i < turns.length ∧ (Assigns unicode text t ∨ Cancels unicode text t)) := by
  unfold TouchedAfter AssignsAt CancelsAt
  simp only [at_concat]
  constructor
  · rintro ⟨j, hj, (h | ⟨rfl, h⟩) | (h | ⟨rfl, h⟩)⟩
    · exact .inl ⟨j, hj, .inl h⟩
    · exact .inr ⟨hj, .inl h⟩
    · exact .inl ⟨j, hj, .inr h⟩
    · exact .inr ⟨hj, .inr h⟩
  · rintro (⟨j, hj, h | h⟩ | ⟨hi, h | h⟩)
    · exact ⟨j, hj, .inl (.inl h)⟩
    · exact ⟨j, hj, .inr (.inl h)⟩
    · exact ⟨turns.length, hi, .inl (.inr ⟨rfl, h⟩)⟩
    · exact ⟨turns.length, hi, .inr (.inr ⟨rfl, h⟩)⟩

/-- A mask of the turn `i`: the value of the last assignment of a target. -/
def Masked (turns : List Text) (i : ℕ) (span : ℕ × ℕ) : Prop :=
  ∃ text ∈ turns[i]?, ∃ t a, lastAssignment unicode text t = some a ∧ span = a.span ∧
    (Cancels unicode text t ∨ TouchedAfter unicode turns t i)

/-- What one more turn masks. -/
theorem masked_concat (turns : List Text) (text : Text) (i : ℕ) (span : ℕ × ℕ) :
    Masked unicode (turns ++ [text]) i span ↔ Masked unicode turns i span ∨
      (∃ t o, (Assigns unicode text t ∨ Cancels unicode text t) ∧ Survives unicode turns t o ∧
        (i, span) = (o.turn, o.span)) ∨
      (i = turns.length ∧ ∃ t a, lastAssignment unicode text t = some a ∧ span = a.span ∧
        Cancels unicode text t) := by
  constructor
  · rintro ⟨text', htext', t, a, hlast, rfl, hdue⟩
    rcases (at_concat (P := fun x => x = text') turns text i).1 ⟨text', htext', rfl⟩ with
      ⟨x, hmem, rfl⟩ | ⟨hi, rfl⟩
    · have hlt := lt_of_at (P := fun _ => True) ⟨_, hmem, trivial⟩
      rw [touchedAfter_concat] at hdue
      by_cases hold : Cancels unicode x t ∨ TouchedAfter unicode turns t i
      · exact .inl ⟨_, hmem, t, a, hlast, rfl, hold⟩
      · rw [not_or] at hold
        have hnow := ((hdue.resolve_left hold.1).resolve_left hold.2).2
        refine .inr (.inl ⟨t, ⟨i, a.span, a.evidence, a.value⟩, hnow,
          ⟨⟨_, hmem, a, hlast, rfl⟩, fun j hj h => hold.2 ⟨j, hj, .inl h⟩, fun j hj h => ?_⟩, rfl⟩)
        rcases Nat.lt_or_eq_of_le hj with hlt | rfl
        · exact hold.2 ⟨j, hlt, .inr h⟩
        · obtain ⟨y, hy, hcancels⟩ := h
          dsimp only at hy
          rw [Option.mem_def] at hy hmem
          rw [hy] at hmem
          exact hold.1 (Option.some.inj hmem ▸ hcancels)
    · refine .inr (.inr ⟨hi, t, a, hlast, rfl, hdue.resolve_right ?_⟩)
      rintro ⟨j, hj, h | h⟩
      · have := lt_of_at h
        rw [List.length_append, List.length_singleton] at this
        omega
      · have := lt_of_at h
        rw [List.length_append, List.length_singleton] at this
        omega
  · rintro (⟨text', htext', t, a, hlast, rfl, hdue⟩ | ⟨t, o, hnow, hsurvives, heq⟩ |
      ⟨rfl, t, a, hlast, rfl, hcancels⟩)
    · have hlt := lt_of_at (P := fun _ => True) ⟨_, htext', trivial⟩
      refine ⟨text', ?_, t, a, hlast, rfl, hdue.imp_right fun h => ?_⟩
      · rwa [List.getElem?_append_left hlt]
      · exact (touchedAfter_concat unicode turns text t i).2 (.inl h)
    · obtain ⟨⟨text', htext', a, hlast, ho⟩, -, -⟩ := hsurvives
      have hlt := lt_of_at (P := fun _ => True) ⟨_, htext', trivial⟩
      obtain ⟨rfl, rfl⟩ := Prod.mk.inj heq
      refine ⟨text', ?_, t, a, hlast, by rw [ho], .inr ?_⟩
      · rwa [List.getElem?_append_left hlt]
      · exact (touchedAfter_concat unicode turns text t o.turn).2 (.inr ⟨hlt, hnow⟩)
    · exact ⟨text, by simp, t, a, hlast, rfl, .inl hcancels⟩

/-- **What is masked.** -/
theorem mem_masks (turns : List Text) (i : ℕ) (span : ℕ × ℕ) :
    (i, span) ∈ (readTurns unicode turns).masks ↔ Masked unicode turns i span := by
  induction turns using List.reverseRecOn with
  | nil =>
    constructor
    · intro h
      cases h
    · rintro ⟨text, htext, -⟩
      cases htext
  | append_singleton turns text ih =>
    have hturn : ∀ t o, (readTurns unicode turns).occurrences.get t = some o →
        o.turn ≠ turns.length := by
      intro t o ho heq
      obtain ⟨⟨text', htext', -⟩, -⟩ := (get_iff_survives unicode).1 ho
      have := lt_of_at (P := fun _ => True) ⟨text', htext', trivial⟩
      omega
    rw [masked_concat, ← ih, readTurns_concat, readTurn, cancels_masks, assigns_masks hturn,
      or_assoc]
    dsimp only
    refine or_congr_right ⟨?_, ?_⟩
    · rintro (⟨a, ha, o, ho, hm⟩ | ⟨c, hc, o, ho, hm⟩)
      · exact .inl ⟨a.target, o, .inl ⟨a, ha, rfl⟩, (get_iff_survives unicode).1 ho, hm⟩
      · rw [assigns_get] at ho
        cases hlast : lastAssignment unicode text c.target with
        | some a =>
          rw [← lastAssignment, hlast] at ho
          obtain rfl := Option.some.inj ho
          obtain ⟨rfl, rfl⟩ := Prod.mk.inj hm
          exact .inr ⟨rfl, c.target, a, hlast, rfl, c, hc, rfl⟩
        | none =>
          rw [← lastAssignment, hlast, Option.map_none, Option.none_or] at ho
          exact .inl ⟨c.target, o, .inr ⟨c, hc, rfl⟩, (get_iff_survives unicode).1 ho, hm⟩
    · rintro (⟨t, o, hnow, hsurvives, hm⟩ | ⟨rfl, t, a, hlast, rfl, c, hc, rfl⟩)
      · have ho := (get_iff_survives unicode).2 hsurvives
        by_cases hassigns : Assigns unicode text t
        · obtain ⟨a, ha, rfl⟩ := hassigns
          exact .inl ⟨a, ha, o, ho, hm⟩
        · obtain ⟨c, hc, rfl⟩ := hnow.resolve_left hassigns
          refine .inr ⟨c, hc, o, ?_, hm⟩
          have hnone : lastAssignment unicode text c.target = none := by
            rw [Option.eq_none_iff_forall_ne_some]
            intro a ha
            exact hassigns ⟨a, ((lastAssignment_eq_some unicode).1 ha).1,
              ((lastAssignment_eq_some unicode).1 ha).2.1⟩
          rw [assigns_get, ← lastAssignment, hnone, Option.map_none, Option.none_or, ho]
      · refine .inr ⟨c, hc, ⟨turns.length, a.span, a.evidence, a.value⟩, ?_, rfl⟩
        rw [assigns_get, ← lastAssignment, hlast]
        rfl

/-! ### Blanks -/

/-- `text[start:end]`. -/
def cutAt (text : Text) (span : ℕ × ℕ) : Text := (text.take span.2).drop span.1

/-- A position in a span. -/
def Covers (span : ℕ × ℕ) (k : ℕ) : Prop := span.1 ≤ k ∧ k < span.2

instance (span : ℕ × ℕ) (k : ℕ) : Decidable (Covers span k) :=
  inferInstanceAs (Decidable (span.1 ≤ k ∧ k < span.2))

theorem length_mask {text : Text} {span : ℕ × ℕ} (h : span.1 ≤ span.2 ∧ span.2 ≤ text.length) :
    (mask text span).length = text.length := by
  simp only [mask, List.length_append, List.length_take, List.length_replicate, List.length_drop]
  omega

theorem getElem?_mask {text : Text} {span : ℕ × ℕ} (h : span.1 ≤ span.2 ∧ span.2 ≤ text.length)
    (k : ℕ) : (mask text span)[k]? = if Covers span k then some ' ' else text[k]? := by
  have htake : (text.take span.1).length = span.1 := by
    rw [List.length_take]
    omega
  have hfront : (text.take span.1 ++ List.replicate (span.2 - span.1) ' ').length = span.2 := by
    rw [List.length_append, htake, List.length_replicate]
    omega
  rw [mask]
  by_cases hk : k < span.2
  · rw [List.getElem?_append_left (by rwa [hfront])]
    by_cases hstart : k < span.1
    · rw [if_neg fun hc => absurd hc.1 (by omega), List.getElem?_append_left (by rwa [htake]),
        List.getElem?_take_of_lt hstart]
    · rw [if_pos ⟨by omega, hk⟩, List.getElem?_append_right (by omega),
        List.getElem?_replicate_of_lt (by omega)]
  · rw [if_neg fun hc => hk hc.2, List.getElem?_append_right (by omega), hfront,
      List.getElem?_drop]
    congr 1
    omega

theorem getElem?_maskAll (text : Text) {spans : List (ℕ × ℕ)}
    (h : ∀ span ∈ spans, span.1 ≤ span.2 ∧ span.2 ≤ text.length) :
    (spans.foldl mask text).length = text.length ∧ ∀ k : ℕ, (spans.foldl mask text)[k]? =
      if ∃ span ∈ spans, Covers span k then some ' ' else text[k]? := by
  induction spans using List.reverseRecOn with
  | nil => simp
  | append_singleton spans span ih =>
    obtain ⟨hlength, hget⟩ := ih fun s hs => h s (List.mem_append_left _ hs)
    have hspan := h span (List.mem_append_right _ List.mem_cons_self)
    rw [← hlength] at hspan
    rw [List.foldl_concat]
    refine ⟨(length_mask hspan).trans hlength, fun k => ?_⟩
    rw [getElem?_mask hspan, hget]
    by_cases hcovers : Covers span k
    · rw [if_pos hcovers, if_pos ⟨span, by simp, hcovers⟩]
    · rw [if_neg hcovers]
      refine if_congr ⟨fun ⟨s, hs, hc⟩ => ⟨s, List.mem_append_left _ hs, hc⟩, ?_⟩ rfl rfl
      rintro ⟨s, hs, hc⟩
      rcases List.mem_append.1 hs with hs | hs
      · exact ⟨s, hs, hc⟩
      · exact absurd (List.mem_singleton.1 hs ▸ hc) hcovers

/-- A masked span is that of a value. -/
theorem exists_of_masked {turns : List Text} {i : ℕ} {text : Text} (htext : turns[i]? = some text)
    {span : ℕ × ℕ} (h : Masked unicode turns i span) :
    ∃ a, a ∈ assignments unicode text ∧ span = a.span ∧
      lastAssignment unicode text a.target = some a ∧
      (Cancels unicode text a.target ∨ TouchedAfter unicode turns a.target i) := by
  obtain ⟨text', htext', t, a, hlast, rfl, hdue⟩ := h
  rw [htext] at htext'
  obtain rfl := Option.some.inj htext'
  obtain ⟨ha, rfl, -⟩ := (lastAssignment_eq_some unicode).1 hlast
  exact ⟨a, ha, rfl, hlast, hdue⟩

/-- The characters of a turn behind its masks. -/
theorem activeTexts_getElem? {turns : List Text} {i : ℕ} {text : Text}
    (htext : turns[i]? = some text) :
    ∃ active, (activeTexts unicode turns)[i]? = some active ∧ active.length = text.length ∧
      (∀ k span, Masked unicode turns i span → Covers span k → active[k]? = some ' ') ∧
      ∀ k, (∀ span, Masked unicode turns i span → ¬ Covers span k) → active[k]? = text[k]? := by
  have hmem : ∀ span, span ∈ (((readTurns unicode turns).masks.filter fun m => m.1 = i).map
      Prod.snd) ↔ Masked unicode turns i span := by
    intro span
    rw [← mem_masks, List.mem_map]
    constructor
    · rintro ⟨m, hm, rfl⟩
      obtain ⟨hm, hi⟩ := List.mem_filter.1 hm
      rw [← of_decide_eq_true hi]
      exact hm
    · intro h
      exact ⟨(i, span), List.mem_filter.2 ⟨h, decide_eq_true rfl⟩, rfl⟩
  have hplaced : ∀ span ∈ ((readTurns unicode turns).masks.filter fun m => m.1 = i).map Prod.snd,
      span.1 ≤ span.2 ∧ span.2 ≤ text.length := by
    intro span hspan
    obtain ⟨a, ha, rfl, -⟩ := exists_of_masked unicode htext ((hmem span).1 hspan)
    have hp := placed_assignments unicode ha
    exact ⟨hp.nonempty.le, hp.stop_le⟩
  obtain ⟨hlength, hget⟩ := getElem?_maskAll text hplaced
  refine ⟨_, ?_, hlength, fun k span hspan hcovers => ?_, fun k hnone => ?_⟩
  · rw [activeTexts, List.getElem?_map, List.getElem?_zipIdx, htext]
    simp
  · rw [hget, if_pos ⟨span, (hmem span).2 hspan, hcovers⟩]
  · rw [hget, if_neg]
    rintro ⟨span, hspan, hcovers⟩
    exact hnone span ((hmem span).1 hspan) hcovers

theorem masked_iff {turns : List Text} {i : ℕ} {text : Text} (htext : turns[i]? = some text)
    {a : Assignment} (ha : a ∈ assignments unicode text) :
    Masked unicode turns i a.span ↔ lastAssignment unicode text a.target = some a ∧
      (Cancels unicode text a.target ∨ TouchedAfter unicode turns a.target i) := by
  constructor
  · intro h
    obtain ⟨b, hb, hspan, hlast, hdue⟩ := exists_of_masked unicode htext h
    have hp := placed_assignments unicode ha
    have := hp.nonempty
    rcases eq_or_apart unicode ha hb with rfl | ⟨hapart, -⟩ | ⟨hapart, -⟩
    · exact ⟨hlast, hdue⟩
    · rw [← hspan] at hapart
      omega
    · rw [← hspan] at hapart
      omega
  · rintro ⟨hlast, hdue⟩
    exact ⟨text, htext, a.target, a, hlast, rfl, hdue⟩

/-- A value is blanked where it is masked, and visible elsewhere. -/
theorem cutAt_active {turns : List Text} {i : ℕ} {text active : Text}
    (htext : turns[i]? = some text) (hactive : (activeTexts unicode turns)[i]? = some active)
    {a : Assignment} (ha : a ∈ assignments unicode text) :
    (Masked unicode turns i a.span →
        cutAt active a.span = List.replicate a.value.length ' ') ∧
      (¬ Masked unicode turns i a.span → cutAt active a.span = a.value) := by
  obtain ⟨active', hactive', hlength, hblank, hsame⟩ := activeTexts_getElem? unicode htext
  rw [hactive] at hactive'
  obtain rfl := Option.some.inj hactive'
  have hp := placed_assignments unicode ha
  have hstop := hp.stop_le
  have hvalue : a.value.length = a.span.2 - a.span.1 := by
    rw [← hp.value, List.length_drop, List.length_take]
    omega
  have hcut : ∀ (t : Text) (k : ℕ), (cutAt t a.span)[k]? =
      if k < a.span.2 - a.span.1 then t[a.span.1 + k]? else none := by
    intro t k
    rw [cutAt, List.getElem?_drop, List.getElem?_take]
    exact if_congr (by omega) rfl rfl
  constructor
  · intro hmasked
    refine List.ext_getElem? fun k => ?_
    rw [hcut, hvalue, List.getElem?_replicate]
    refine if_ctx_congr Iff.rfl (fun hk => ?_) fun _ => rfl
    exact hblank _ _ hmasked ⟨by omega, by omega⟩
  · intro hmasked
    rw [← hp.value]
    refine List.ext_getElem? fun k => ?_
    rw [hcut, ← cutAt, hcut]
    refine if_ctx_congr Iff.rfl (fun hk => hsame _ fun span hspan hcovers => ?_) fun _ => rfl
    obtain ⟨b, hb, rfl, -⟩ := exists_of_masked unicode htext hspan
    rcases eq_or_apart unicode ha hb with rfl | ⟨hapart, -⟩ | ⟨hapart, -⟩
    · exact hmasked hspan
    · have := hcovers.1
      omega
    · have := hcovers.2
      omega

theorem blanked_iff {turns : List Text} {i : ℕ} {text active : Text}
    (htext : turns[i]? = some text) (hactive : (activeTexts unicode turns)[i]? = some active)
    {a : Assignment} (ha : a ∈ assignments unicode text) :
    cutAt active a.span = List.replicate a.value.length ' ' ↔ Masked unicode turns i a.span := by
  obtain ⟨hblank, hvisible⟩ := cutAt_active unicode htext hactive ha
  refine ⟨fun h => by_contra fun hmasked => ?_, hblank⟩
  have hp := placed_assignments unicode ha
  have hne : a.value ≠ [] := by
    intro hnil
    have hvalue := congrArg List.length hp.value
    rw [hnil, List.length_drop, List.length_take, List.length_nil] at hvalue
    have := hp.nonempty
    have := hp.stop_le
    omega
  rw [hvisible hmasked] at h
  obtain ⟨c, hc⟩ := List.exists_mem_of_ne_nil _ hne
  refine hp.solid c hc ?_
  rw [h] at hc
  exact List.eq_of_mem_replicate hc

/-! ### What the masks are for -/

/-- A cancellation of the target comes behind an assignment of the turn `i`. -/
def CancelledAfter (turns : List Text) (i : ℕ) (a : Assignment) : Prop :=
  (∃ j, i < j ∧ CancelsAt unicode turns a.target j) ∨
    ∃ text ∈ turns[i]?, ∃ c ∈ cancellations unicode text, c.target = a.target ∧ a.start < c.start

/-- A later turn assigns the target, or a later cancellation cancels it. -/
def Superseded (turns : List Text) (i : ℕ) (a : Assignment) : Prop :=
  (∃ j, i < j ∧ AssignsAt unicode turns a.target j) ∨ CancelledAfter unicode turns i a

/-- The texts are the turns with their superseded values blanked. -/
structure Faithful (turns texts : List Text) : Prop where
  lengths : texts.map List.length = turns.map List.length
  only : ∀ (i : ℕ) (text active : Text), turns[i]? = some text → texts[i]? = some active →
    ∀ k : ℕ, active[k]? = text[k]? ∨
      active[k]? = some ' ' ∧ ∃ a ∈ assignments unicode text, Covers a.span k
  blanked : ∀ (i : ℕ) (text active : Text), turns[i]? = some text → texts[i]? = some active →
    ∀ a ∈ assignments unicode text,
      cutAt active a.span = List.replicate a.value.length ' ' ↔ Superseded unicode turns i a
  visible : ∀ (i : ℕ) (text active : Text), turns[i]? = some text → texts[i]? = some active →
    ∀ a ∈ assignments unicode text, lastAssignment unicode text a.target = some a →
      (∀ j, i < j → ¬ AssignsAt unicode turns a.target j) → ¬ CancelledAfter unicode turns i a →
        cutAt active a.span = a.value

/-- Within a turn, what comes first is not what the table keeps. -/
structure Orderly (turns : List Text) : Prop where
  /-- A value that its own turn replaces is not touched again. -/
  replaced : ∀ (i : ℕ) (text : Text), turns[i]? = some text → ∀ a ∈ assignments unicode text,
    ∀ b ∈ assignments unicode text, b.target = a.target → a.start < b.start →
      ¬ TouchedAfter unicode turns a.target i ∧
        ∀ c ∈ cancellations unicode text, c.target = a.target → c.start ≤ a.start
  /-- A cancellation in the turn of the last value comes behind it, or a later turn touches it. -/
  cancelled : ∀ (i : ℕ) (text : Text), turns[i]? = some text → ∀ a ∈ assignments unicode text,
    lastAssignment unicode text a.target = some a → Cancels unicode text a.target →
      TouchedAfter unicode turns a.target i ∨
        ∃ c ∈ cancellations unicode text, c.target = a.target ∧ a.start < c.start

theorem superseded_iff {turns : List Text} {i : ℕ} {text : Text} (htext : turns[i]? = some text)
    (a : Assignment) : Superseded unicode turns i a ↔ TouchedAfter unicode turns a.target i ∨
      ∃ c ∈ cancellations unicode text, c.target = a.target ∧ a.start < c.start := by
  have hhere : (∃ text ∈ turns[i]?, ∃ c ∈ cancellations unicode text,
        c.target = a.target ∧ a.start < c.start) ↔
      ∃ c ∈ cancellations unicode text, c.target = a.target ∧ a.start < c.start := by
    rw [htext]
    simp
  rw [Superseded, CancelledAfter, hhere, TouchedAfter, ← or_assoc]
  refine or_congr_left ?_
  simp only [and_or_left, exists_or]

/-- **Superseded values are blanked, and no others, in orderly conversations only.** -/
theorem faithful_iff (turns : List Text) :
    Faithful unicode turns (activeTexts unicode turns) ↔ Orderly unicode turns := by
  constructor
  · intro h
    have hmasked : ∀ {i : ℕ} {text : Text}, turns[i]? = some text →
        ∀ a ∈ assignments unicode text, Masked unicode turns i a.span ↔
          Superseded unicode turns i a := by
      intro i text htext a ha
      obtain ⟨active, hactive, -⟩ := activeTexts_getElem? unicode htext
      rw [← blanked_iff unicode htext hactive ha]
      exact h.blanked i text active htext hactive a ha
    refine ⟨fun i text htext a ha b hb htarget hlt => ?_, fun i text htext a ha hlast hc => ?_⟩
    · have hnot : ¬ Superseded unicode turns i a := by
        rw [← hmasked htext a ha, masked_iff unicode htext ha]
        rintro ⟨hlast, -⟩
        exact ((lastAssignment_eq_some unicode).1 hlast).2.2 b hb htarget hlt
      rw [superseded_iff unicode htext, not_or] at hnot
      exact ⟨hnot.1, fun c hc ht => not_lt.1 fun hlt => hnot.2 ⟨c, hc, ht, hlt⟩⟩
    · rw [← superseded_iff unicode htext, ← hmasked htext a ha, masked_iff unicode htext ha]
      exact ⟨hlast, .inl hc⟩
  · intro h
    have hmasked : ∀ {i : ℕ} {text : Text}, turns[i]? = some text →
        ∀ a ∈ assignments unicode text, Masked unicode turns i a.span ↔
          Superseded unicode turns i a := by
      intro i text htext a ha
      rw [masked_iff unicode htext ha, superseded_iff unicode htext]
      by_cases hlast : lastAssignment unicode text a.target = some a
      · rw [and_iff_right hlast]
        constructor
        · rintro (hc | ht)
          · exact h.cancelled i text htext a ha hlast hc
          · exact .inl ht
        · rintro (ht | ⟨c, hc, ht, -⟩)
          · exact .inr ht
          · exact .inl ⟨c, hc, ht⟩
      · have hlater : ∃ b ∈ assignments unicode text, b.target = a.target ∧ a.start < b.start := by
          by_contra hnone
          push Not at hnone
          exact hlast ((lastAssignment_eq_some unicode).2
            ⟨ha, rfl, fun b hb ht => not_lt.2 (hnone b hb ht)⟩)
        obtain ⟨b, hb, htarget, hlt⟩ := hlater
        obtain ⟨htouched, hcancelled⟩ := h.replaced i text htext a ha b hb htarget hlt
        refine ⟨fun hm => absurd hm.1 hlast, ?_⟩
        rintro (ht | ⟨c, hc, ht, hlt⟩)
        · exact absurd ht htouched
        · exact absurd hlt (not_lt.2 (hcancelled c hc ht))
    refine ⟨List.ext_getElem? fun i => ?_, fun i text active htext hactive k => ?_,
      fun i text active htext hactive a ha => ?_,
      fun i text active htext hactive a ha hlast hassigns hcancelled => ?_⟩
    · rw [List.getElem?_map, List.getElem?_map]
      cases htext : turns[i]? with
      | some text =>
        obtain ⟨active, hactive, hlength, -⟩ := activeTexts_getElem? unicode htext
        rw [hactive, Option.map_some, Option.map_some, hlength]
      | none =>
        have hnone : (activeTexts unicode turns)[i]? = none := by
          rw [activeTexts, List.getElem?_map, List.getElem?_zipIdx, htext]
          rfl
        rw [hnone]
    · obtain ⟨active', hactive', -, hblank, hsame⟩ := activeTexts_getElem? unicode htext
      rw [hactive] at hactive'
      obtain rfl := Option.some.inj hactive'
      by_cases hcovered : ∃ span, Masked unicode turns i span ∧ Covers span k
      · obtain ⟨span, hspan, hcovers⟩ := hcovered
        obtain ⟨a, ha, rfl, -⟩ := exists_of_masked unicode htext hspan
        exact .inr ⟨hblank k _ hspan hcovers, a, ha, hcovers⟩
      · exact .inl (hsame k fun span hspan hcovers => hcovered ⟨span, hspan, hcovers⟩)
    · rw [blanked_iff unicode htext hactive ha, hmasked htext a ha]
    · refine (cutAt_active unicode htext hactive ha).2 ?_
      rw [hmasked htext a ha]
      rintro (⟨j, hj, hassign⟩ | hc)
      · exact hassigns j hj hassign
      · exact hcancelled hc

/-! ### A cancellation in front -/

/-- A turn that cancels a target before it assigns it. -/
def resetTurn : Text := "cancel a.b, a.b=5".toList

/-- The assignment of the turn. -/
def resetAssignment : Assignment :=
  ⟨"a.b".toList, 12, (16, 17), "5".toList, "a.b=5".toList, "a.b=5".toList⟩

theorem read_resetTurn : assignments asciiTables resetTurn = [resetAssignment] ∧
    (cancellations asciiTables resetTurn).all (fun c => c.start ≤ 12) ∧
    activeTexts asciiTables [resetTurn] = ["cancel a.b, a.b= ".toList] := by
  decide +kernel

/-- The new value is blanked, by a cancellation that comes before it. -/
theorem not_faithful_reset :
    ¬ Faithful asciiTables [resetTurn] (activeTexts asciiTables [resetTurn]) := by
  intro h
  obtain ⟨hassignments, hcancellations, hactive⟩ := read_resetTurn
  have hmem : resetAssignment ∈ assignments asciiTables resetTurn := by
    rw [hassignments]
    exact List.mem_cons_self
  have hnone : ∀ j, 0 < j → [resetTurn][j]? = none := by
    intro j hj
    exact List.getElem?_eq_none hj
  have hvisible := h.visible 0 resetTurn "cancel a.b, a.b= ".toList rfl (by rw [hactive]; rfl)
    resetAssignment hmem (by rw [lastAssignment, hassignments]; decide)
    (fun j hj hassigns => by
      obtain ⟨text, htext, -⟩ := hassigns
      rw [hnone j hj] at htext
      cases htext)
    (by
      rintro (⟨j, hj, text, htext, -⟩ | ⟨text, htext, c, hc, -, hlt⟩)
      · rw [hnone j hj] at htext
        cases htext
      · obtain rfl := Option.some.inj htext
        have hle := of_decide_eq_true (List.all_eq_true.1 hcancellations c hc)
        exact absurd hlt (not_lt.2 hle))
  exact absurd hvisible (by decide)

end Contracts
end OpenFoamAgent
