/-
# Redacted paths

`_event`, `_redact_event` and `_redact_local_paths` of `postprocessing/agent.py`, with
`compact_event_for_model` of `llm/context.py`. An event of the post-processing is cut to its
limits, the known roots in it are replaced by their markers, and then every absolute path is
replaced by its last component.

Which slash begins a path is written into the expression: none behind a letter, a digit, an
underscore, a colon or another slash. Between two events that differ in the directories of
such paths the model sees no difference (`hidesDirectories`). The directories of a path
behind a colon are shown (`directories_shown`).
-/
import OpenFoamAgent.Llm.Context
import OpenFoamAgent.Python.RegexSubstitution
import OpenFoamAgent.Workspace.Path
import Mathlib.Data.List.Sort

namespace OpenFoamAgent
namespace Postprocessing

open Python Llm Workspace

/-! ### Events -/

/-- `PostProcessingEvent`. -/
structure PostProcessingEvent where
  step : ℤ
  actionType : Text
  success : Bool
  summary : Text
  outputExcerpt : Text := []
  nativeCommandExecuted : Bool := false
  artifactPath : Option Text := none
  artifactSha256 : Option Text := none
  deriving DecidableEq

/-- `^[0-9a-f]{64}$` -/
def isSha256 (t : Text) : Bool :=
  t.length == 64 && t.all fun c => isAsciiDigit c || ('a' ≤ c && c ≤ 'f')

/-- The checks of `PostProcessingEvent`. -/
def PostProcessingEvent.valid (e : PostProcessingEvent) : Bool :=
  1 ≤ e.step && 1 ≤ e.actionType.length && e.actionType.length ≤ 80 && 1 ≤ e.summary.length &&
    e.summary.length ≤ 4000 && e.outputExcerpt.length ≤ 12000 &&
    e.artifactPath.all (·.length ≤ 500) && e.artifactSha256.all isSha256 &&
    e.artifactPath.isNone == e.artifactSha256.isNone

/-- The limits of `PostProcessingPolicy` for the text of an event. -/
structure EventPolicy where
  maxObservationChars : ℕ := 12000
  modelEventExcerptChars : ℕ := 2000
  observation_pos : 1 ≤ maxObservationChars := by decide
  excerpt_pos : 1 ≤ modelEventExcerptChars := by decide

/-- The end of an output that is longer than the policy allows. -/
def boundedOutput (policy : EventPolicy) (output : Text) : Text :=
  if policy.maxObservationChars < output.length then
    "... [truncated]\n".toList ++ output.drop (output.length - policy.maxObservationChars)
  else output

/-- `_event`, of the event with the whole output in it; nothing where `PostProcessingEvent`
refuses the event. -/
def event (policy : EventPolicy) (e : PostProcessingEvent) : Option PostProcessingEvent :=
  let recorded := { e with outputExcerpt := boundedOutput policy e.outputExcerpt }
  if recorded.valid then some recorded else none

/-! ### What the model sees of an event -/

/-- The text that `compact_text` raises with. -/
def tooFewChars : Text := "max_chars must be >= 64".toList

/-- `compact_text`, with its own check of the limit. -/
def checkedCompactText (value : Text) (maxChars : ℕ) : Except Text Text :=
  if maxChars < 64 then .error tooFewChars else .ok (compactText value maxChars)

/-- The record that `compact_event_for_model` builds of a post-processing event. -/
structure ModelEvent where
  step : ℤ
  actionType : Text
  success : Bool
  summary : Text
  outputExcerpt : Text
  /-- The entry is left out where the field has no value, or an empty one. -/
  artifactSha256 : Option Text
  artifactPath : Option Text
  /-- The entry is there, and true, where a native command was executed. -/
  nativeCommandExecuted : Bool
  deriving DecidableEq

/-- `compact_event_for_model(event, excerpt_chars=excerptChars)`. -/
def compactEventForModel (e : PostProcessingEvent) (excerptChars : ℕ) :
    Except Text ModelEvent := do
  let summary ← checkedCompactText e.summary 900
  let excerpt ← checkedCompactText e.outputExcerpt excerptChars
  pure
    { step := e.step, actionType := e.actionType, success := e.success, summary,
      outputExcerpt := excerpt, artifactSha256 := e.artifactSha256.filter (!·.isEmpty),
      artifactPath := e.artifactPath.filter (!·.isEmpty),
      nativeCommandExecuted := e.nativeCommandExecuted }

/-- The absolute paths that `_redact_local_paths` knows: of the case and of the workspace, and
`WM_PROJECT_DIR` and `HOME` of the environment, empty where they are not set. -/
structure LocalRoots where
  caseDir : Text
  root : Text
  projectDir : Text
  home : Text

/-- The known roots with their markers, the longest first. -/
def LocalRoots.known (roots : LocalRoots) : List (Text × Text) :=
  ([(roots.caseDir, "<CASE_DIR>".toList), (roots.root, "<WORKSPACE>".toList),
    (roots.projectDir, "<OPENFOAM_ROOT>".toList), (roots.home, "<HOME>".toList)].filter
      fun r => !r.1.isEmpty).insertionSort fun r s => s.1.length ≤ r.1.length

/-- The known roots in a text are replaced by their markers. -/
def LocalRoots.replaced (roots : LocalRoots) (text : Text) : Text :=
  roots.known.foldl (fun t r => replaceAll r.1 r.2 t) text

/-- The characters that a slash stands behind, that a path goes on with behind its slash, and
that it goes on with then. -/
structure PathShape where
  joins : Char → Bool
  begins : Char → Bool
  stays : Char → Bool

/-- The classes of `(?<![A-Za-z0-9_:/])/(?P<body>[A-Za-z0-9._~+-][^\s"'<>|;()]*)`. -/
def localPaths : PathShape where
  joins c := isAsciiWord c || c == ':' || c == '/'
  begins c := isAsciiLetter c || isAsciiDigit c || "._~+-".toList.contains c
  stays c := !(isSpace c || "\x22'<>|;()".toList.contains c)

/-- `absolute_path`. -/
def absolutePath : Pattern :=
  .seq (.notBehind localPaths.joins) (.seq (.one (· == '/'))
    (.group "body" (.seq (.one localPaths.begins) (.star (.one localPaths.stays)))))

/-- `Path('/' + body).name` -/
def pathName (body : Text) : Text := (pathParts body).getLastD []

/-- The marker in the place of a path. -/
def localPathMarker (body : Text) : Text := "<LOCAL_PATH:".toList ++ pathName body ++ ['>']

/-- The marker in the place of a match. -/
def markerOf (m : Cursor) : Text := localPathMarker ((m.group "body").getD [])

/-- `_redact_local_paths`. -/
def redactLocalPaths (roots : LocalRoots) (text : Text) : Text :=
  absolutePath.sub markerOf (roots.replaced text)

/-- `_redact_event`. -/
def redactEvent (roots : LocalRoots) (policy : EventPolicy) (e : PostProcessingEvent) :
    Except Text ModelEvent := do
  let payload ← compactEventForModel e policy.modelEventExcerptChars
  pure { payload with
    summary := redactLocalPaths roots payload.summary
    outputExcerpt := redactLocalPaths roots payload.outputExcerpt }

/-! ### Texts that differ in directories -/

/-- What stands behind the slash of a path. -/
def PathShape.IsBody (shape : PathShape) (body : Text) : Prop :=
  ∃ c cs, body = c :: cs ∧ shape.begins c = true ∧ ∀ x ∈ cs, shape.stays x = true

/-- A path begins here. -/
def PathShape.StartsPath (shape : PathShape) (behind : Option Char) (t : Text) : Prop :=
  behind.any shape.joins = false ∧ ∃ c cs, t = '/' :: c :: cs ∧ shape.begins c = true

/-- Two texts behind the character `behind` that differ in the directories of their paths
only: they are the same character by character, and where one of them has a path the other has
one with the same last component, behind which the same character or the end follows. -/
inductive SameButDirectories (shape : PathShape) : Option Char → Text → Text → Prop
  | nil (behind : Option Char) : SameButDirectories shape behind [] []
  | char {behind : Option Char} {c : Char} {t u : Text}
      (ht : ¬ shape.StartsPath behind (c :: t)) (hu : ¬ shape.StartsPath behind (c :: u))
      (h : SameButDirectories shape (some c) t u) :
      SameButDirectories shape behind (c :: t) (c :: u)
  | path {behind : Option Char} {p q : Text} {d : Char} {t u : Text}
      (hbehind : behind.any shape.joins = false) (hp : shape.IsBody p) (hq : shape.IsBody q)
      (hname : pathName p = pathName q) (hd : shape.stays d = false)
      (h : SameButDirectories shape (some d) t u) :
      SameButDirectories shape behind ('/' :: p ++ d :: t) ('/' :: q ++ d :: u)
  | last {behind : Option Char} {p q : Text} (hbehind : behind.any shape.joins = false)
      (hp : shape.IsBody p) (hq : shape.IsBody q) (hname : pathName p = pathName q) :
      SameButDirectories shape behind ('/' :: p) ('/' :: q)

/-- Every text is told apart into paths and other characters. -/
theorem SameButDirectories.refl (shape : PathShape) (behind : Option Char) (t : Text) :
    SameButDirectories shape behind t t := by
  induction hn : t.length using Nat.strong_induction_on generalizing t behind with
  | _ n ih =>
    rcases t with _ | ⟨a, t⟩
    · exact .nil behind
    rw [List.length_cons] at hn
    by_cases hpath : shape.StartsPath behind (a :: t)
    · obtain ⟨hbehind, c, cs, heq, hc⟩ := hpath
      obtain ⟨rfl, rfl⟩ := List.cons.inj heq
      have hbody : shape.IsBody (c :: cs.takeWhile shape.stays) :=
        ⟨c, _, rfl, hc, fun x hx => List.mem_takeWhile_imp hx⟩
      have hsplit : '/' :: c :: cs =
          '/' :: (c :: cs.takeWhile shape.stays) ++ cs.dropWhile shape.stays := by
        rw [List.cons_append, List.cons_append, List.takeWhile_append_dropWhile]
      rw [hsplit]
      rcases hrest : cs.dropWhile shape.stays with _ | ⟨d, rest⟩
      · rw [List.append_nil]
        exact .last hbehind hbody hbody rfl
      · have hne : cs.dropWhile shape.stays ≠ [] := by
          rw [hrest]
          exact List.cons_ne_nil _ _
        have hd : shape.stays d = false := by
          have hhead := List.head_dropWhile_not shape.stays hne
          simp only [hrest, List.head_cons] at hhead
          exact hhead
        refine .path hbehind hbody hbody rfl hd (ih rest.length ?_ _ _ rfl)
        have hle := (List.dropWhile_suffix shape.stays (l := cs)).length_le
        rw [hrest, List.length_cons] at hle
        rw [List.length_cons] at hn
        omega
    · exact .char hpath hpath (ih t.length (by omega) _ _ rfl)

/-! ### One path at a time -/

theorem run_absolutePath_of_not_startsPath {behind : Option Char} {c : Char} {t : Text}
    (h : ¬ localPaths.StartsPath behind (c :: t)) :
    absolutePath.run { behind, ahead := c :: t } = [] := by
  rw [absolutePath, Pattern.run, Pattern.run]
  by_cases hbehind : behind.any localPaths.joins = true
  · rw [if_pos hbehind, List.flatMap_nil]
  rw [if_neg hbehind, List.flatMap_singleton, Pattern.run, Pattern.run]
  by_cases hc : c = '/'
  · subst hc
    dsimp only
    rw [if_pos (beq_self_eq_true _), List.flatMap_singleton, Pattern.run, Pattern.run,
      Pattern.run]
    rcases t with _ | ⟨d, ds⟩
    · rfl
    · dsimp only
      rw [if_neg fun hd => h ⟨Bool.eq_false_iff.2 hbehind, d, ds, rfl, hd⟩]
      rfl
  · dsimp only
    rw [if_neg (by rw [beq_iff_eq]; exact hc), List.flatMap_nil]

/-- At a path the expression takes the whole of it. -/
theorem run_absolutePath {behind : Option Char} {p : Text}
    (hbehind : behind.any localPaths.joins = false) (hp : localPaths.IsBody p) (rest : Text)
    (hrest : rest.takeWhile localPaths.stays = []) :
    ∃ m others, absolutePath.run { behind, ahead := '/' :: p ++ rest } = m :: others ∧
      m.ahead = rest ∧ m.group "body" = some p := by
  obtain ⟨c, cs, rfl, hc, hcs⟩ := hp
  have htake : (cs ++ rest).dropWhile localPaths.stays = rest := by
    rw [List.dropWhile_append_of_pos hcs]
    cases rest with
    | nil => rfl
    | cons d rest =>
      rw [List.takeWhile_cons] at hrest
      split_ifs at hrest with hd
      rw [List.dropWhile_cons_of_neg hd]
  obtain ⟨m, others, hrun, hahead, hgroups, -⟩ :=
    Pattern.run_star_one localPaths.stays { behind := some c, ahead := cs ++ rest }
  rw [htake] at hahead
  have hstart : ∀ tail : Pattern,
      (Pattern.seq (.notBehind localPaths.joins) (.seq (.one (· == '/'))
        (.group "body" (.seq (.one localPaths.begins) tail)))).run
          { behind, ahead := '/' :: c :: (cs ++ rest) } =
        (tail.run { behind := some c, ahead := cs ++ rest }).map fun m => { m with
          groups := ("body", Cursor.read { behind := some '/', ahead := c :: (cs ++ rest) } m) ::
            m.groups } := by
    intro tail
    rw [Pattern.run, Pattern.run, if_neg (by rw [hbehind]; exact Bool.false_ne_true),
      List.flatMap_singleton, Pattern.run, Pattern.run]
    dsimp only
    rw [if_pos (beq_self_eq_true _), List.flatMap_singleton, Pattern.run, Pattern.run, Pattern.run]
    dsimp only
    rw [if_pos hc, List.flatMap_singleton]
  rw [absolutePath, List.cons_append, List.cons_append, hstart, hrun, List.map_cons]
  refine ⟨_, _, rfl, hahead, ?_⟩
  have hread : Cursor.read { behind := some '/', ahead := c :: (cs ++ rest) } m = c :: cs := by
    have hlength : (c :: (cs ++ rest)).length - rest.length = (c :: cs).length := by
      rw [List.length_cons, List.length_append, List.length_cons]
      omega
    rw [Cursor.read, hahead, hlength, ← List.cons_append, List.take_left]
  rw [Cursor.group, List.find?_cons_of_pos (by rfl), Option.map_some, hread]

/-- Where no path begins the substitution keeps the character, also behind a path. -/
theorem sub_delimiter {replacement : Cursor → Text} {n : ℕ} (behind : Option Char) {d : Char}
    (hd : localPaths.stays d = false) (t : Text) :
    absolutePath.subFrom replacement (n + 1) behind (d :: t) =
      d :: absolutePath.subFrom replacement n (some d) t := by
  refine Pattern.subFrom_keep (run_absolutePath_of_not_startsPath ?_)
  rintro ⟨-, c, cs, heq, -⟩
  obtain ⟨rfl, -⟩ := List.cons.inj heq
  cases hd

/-- A path is replaced by its marker, and the delimiter behind it stays. -/
theorem sub_path {n : ℕ} {behind : Option Char} {p : Text} {d : Char} {t : Text}
    (hbehind : behind.any localPaths.joins = false) (hp : localPaths.IsBody p)
    (hd : localPaths.stays d = false) (hn : ('/' :: p ++ d :: t).length ≤ n) :
    ∃ k, t.length ≤ k ∧ absolutePath.subFrom markerOf n behind ('/' :: p ++ d :: t) =
      localPathMarker p ++ d :: absolutePath.subFrom markerOf k (some d) t := by
  rw [List.length_append, List.length_cons, List.length_cons] at hn
  obtain ⟨k, rfl⟩ : ∃ k, n = k + 1 + 1 := ⟨n - 2, by omega⟩
  obtain ⟨m, others, hrun, hahead, hbody⟩ := run_absolutePath hbehind hp
    (d :: t) (by rw [List.takeWhile_cons, if_neg (by rw [hd]; exact Bool.false_ne_true)])
  refine ⟨k, by omega, ?_⟩
  rw [List.cons_append] at hrun ⊢
  rw [Pattern.subFrom_match hrun, hahead, sub_delimiter _ hd, markerOf, hbody, Option.getD_some]

/-- A path at the end of the text is replaced by its marker. -/
theorem sub_last {n : ℕ} {behind : Option Char} {p : Text}
    (hbehind : behind.any localPaths.joins = false) (hp : localPaths.IsBody p)
    (hn : ('/' :: p).length ≤ n) :
    absolutePath.subFrom markerOf n behind ('/' :: p) = localPathMarker p := by
  rw [List.length_cons] at hn
  obtain ⟨k, rfl⟩ : ∃ k, n = k + 1 := ⟨n - 1, by omega⟩
  obtain ⟨m, others, hrun, hahead, hbody⟩ := run_absolutePath hbehind hp [] rfl
  rw [List.append_nil] at hrun
  rw [Pattern.subFrom_match hrun, hahead, Pattern.subFrom_nil, markerOf, hbody,
    Option.getD_some, List.append_nil]

/-- **Two runs** of the substitution over texts that differ in the directories of their paths
only. -/
theorem SameButDirectories.sub_eq {behind : Option Char} {t u : Text}
    (h : SameButDirectories localPaths behind t u) :
    ∀ n m, t.length ≤ n → u.length ≤ m →
      absolutePath.subFrom markerOf n behind t = absolutePath.subFrom markerOf m behind u := by
  induction h with
  | nil behind =>
    intro n m _ _
    rw [Pattern.subFrom_nil, Pattern.subFrom_nil]
  | char ht hu _ ih =>
    intro n m hn hm
    obtain ⟨n, rfl⟩ := Nat.exists_eq_succ_of_ne_zero (Nat.ne_of_gt (Nat.zero_lt_of_lt hn))
    obtain ⟨m, rfl⟩ := Nat.exists_eq_succ_of_ne_zero (Nat.ne_of_gt (Nat.zero_lt_of_lt hm))
    rw [Pattern.subFrom_keep (run_absolutePath_of_not_startsPath ht),
      Pattern.subFrom_keep (run_absolutePath_of_not_startsPath hu),
      ih n m (Nat.le_of_succ_le_succ hn) (Nat.le_of_succ_le_succ hm)]
  | @path behind p q d t u hbehind hp hq hname hd _ ih =>
    intro n m hn hm
    obtain ⟨k, hk, hleft⟩ := sub_path (p := p) (t := t) hbehind hp hd hn
    obtain ⟨l, hl, hright⟩ := sub_path (p := q) (t := u) hbehind hq hd hm
    rw [hleft, hright, ih k l hk hl]
    unfold localPathMarker
    rw [hname]
  | @last behind p q hbehind hp hq hname =>
    intro n m hn hm
    rw [sub_last (p := p) hbehind hp hn, sub_last (p := q) hbehind hq hm]
    unfold localPathMarker
    rw [hname]

/-! ### Events that differ in directories -/

theorem redactLocalPaths_eq (roots : LocalRoots) {t u : Text}
    (h : SameButDirectories localPaths none (roots.replaced t) (roots.replaced u)) :
    redactLocalPaths roots t = redactLocalPaths roots u :=
  h.sub_eq _ _ le_rfl le_rfl

theorem LocalRoots.replaced_eq {roots : LocalRoots} {t : Text}
    (h : ∀ r ∈ roots.known, contains r.1 t = false) : roots.replaced t = t := by
  unfold LocalRoots.replaced
  generalize roots.known = rs at h
  induction rs with
  | nil => rfl
  | cons r rs ih =>
    rw [List.foldl_cons, replaceAll_of_not_contains _ (h r List.mem_cons_self)]
    exact ih fun s hs => h s (List.mem_cons_of_mem _ hs)

/-- Two texts of an event, cut to a limit and with the markers of the known roots in them, that
differ in the directories of their paths only. -/
def Alike (roots : LocalRoots) (limit : ℕ) (t u : Text) : Prop :=
  SameButDirectories localPaths none (roots.replaced (compactText t limit))
    (roots.replaced (compactText u limit))

theorem compactEventForModel_eq (e : PostProcessingEvent) (excerptChars : ℕ) :
    compactEventForModel e excerptChars =
      if excerptChars < 64 then .error tooFewChars
      else .ok
        { step := e.step, actionType := e.actionType, success := e.success,
          summary := compactText e.summary 900,
          outputExcerpt := compactText e.outputExcerpt excerptChars,
          artifactSha256 := e.artifactSha256.filter (!·.isEmpty),
          artifactPath := e.artifactPath.filter (!·.isEmpty),
          nativeCommandExecuted := e.nativeCommandExecuted } := by
  unfold compactEventForModel checkedCompactText
  rw [if_neg (by decide : ¬ 900 < 64)]
  by_cases h : excerptChars < 64
  · rw [if_pos h, if_pos h]
    rfl
  · rw [if_neg h, if_neg h]
    rfl

theorem redactEvent_congr (roots : LocalRoots) (policy : EventPolicy) (e : PostProcessingEvent)
    {summary output : Text} (hs : Alike roots 900 e.summary summary)
    (ho : Alike roots policy.modelEventExcerptChars e.outputExcerpt output) :
    redactEvent roots policy { e with summary, outputExcerpt := output } =
      redactEvent roots policy e := by
  unfold redactEvent
  rw [compactEventForModel_eq, compactEventForModel_eq]
  by_cases hlimit : policy.modelEventExcerptChars < 64
  · rw [if_pos hlimit, if_pos hlimit]
  · rw [if_neg hlimit, if_neg hlimit]
    change Except.ok _ = Except.ok _
    dsimp only
    rw [redactLocalPaths_eq roots hs, redactLocalPaths_eq roots ho]

/-- A text that neither `_event` nor `compact_text` cuts, and that names no known root. -/
structure Untouched (roots : LocalRoots) (policy : EventPolicy) (t : Text) : Prop where
  recorded : t.length ≤ 12000
  observed : t.length ≤ policy.maxObservationChars
  compacted : t.length ≤ policy.modelEventExcerptChars
  unknown : ∀ r ∈ roots.known, contains r.1 t = false

theorem Untouched.shown {roots : LocalRoots} {policy : EventPolicy} {t : Text}
    (h : Untouched roots policy t) :
    roots.replaced (compactText t policy.modelEventExcerptChars) = t := by
  rw [compactText, if_pos h.compacted, LocalRoots.replaced_eq h.unknown]

theorem Untouched.event_eq {roots : LocalRoots} {policy : EventPolicy} {e : PostProcessingEvent}
    (h : Untouched roots policy e.outputExcerpt) :
    event policy e = if { e with outputExcerpt := [] }.valid then some e else none := by
  have hbounded : boundedOutput policy e.outputExcerpt = e.outputExcerpt :=
    if_neg h.observed.not_gt
  unfold event
  rw [hbounded]
  unfold PostProcessingEvent.valid
  dsimp only
  rw [decide_eq_true h.recorded, List.length_nil, decide_eq_true (Nat.zero_le _)]

/-- What the redaction hides: events are shown as one if their texts, cut and with the markers
in them, differ in the directories of paths only, and so are the events of two outputs that
do, if neither is cut and neither names a known root. -/
structure HidesDirectories (roots : LocalRoots) (policy : EventPolicy) : Prop where
  events : ∀ (e : PostProcessingEvent) (summary output : Text), Alike roots 900 e.summary summary →
    Alike roots policy.modelEventExcerptChars e.outputExcerpt output →
      redactEvent roots policy { e with summary, outputExcerpt := output } =
        redactEvent roots policy e
  outputs : ∀ (e : PostProcessingEvent) (output : Text),
    Untouched roots policy e.outputExcerpt → Untouched roots policy output →
    SameButDirectories localPaths none e.outputExcerpt output →
      (event policy { e with outputExcerpt := output }).map (redactEvent roots policy) =
        (event policy e).map (redactEvent roots policy)

/-- **No directory** of a path that the expression finds is shown to the model. -/
theorem hidesDirectories (roots : LocalRoots) (policy : EventPolicy) :
    HidesDirectories roots policy := by
  refine ⟨fun e _ _ => redactEvent_congr roots policy e, fun e output he ho h => ?_⟩
  rw [Untouched.event_eq he, Untouched.event_eq (e := { e with outputExcerpt := output }) ho]
  dsimp only
  by_cases hvalid : { e with outputExcerpt := [] }.valid = true
  · rw [if_pos hvalid, if_pos hvalid, Option.map_some, Option.map_some]
    refine congrArg some (redactEvent_congr roots policy e (SameButDirectories.refl ..) ?_)
    rw [Alike, he.shown, ho.shown]
    exact h
  · rw [if_neg hvalid, if_neg hvalid]

/-! ### A path behind a colon -/

/-- Every slash at the start of a text or behind a character that no path is made of, with
whatever is not blank behind it. -/
def everyPath : PathShape where
  joins c := isAsciiWord c || "/.~+-".toList.contains c
  begins c := !isSpace c
  stays c := !isSpace c

/-- A run without environment variables. -/
def workspaceRoots : LocalRoots where
  caseDir := "/srv/ws/case".toList
  root := "/srv/ws".toList
  projectDir := []
  home := []

/-- An event that shows where a field was read. -/
def readEvent (place : Text) : PostProcessingEvent where
  step := 1
  actionType := "read_result_file".toList
  success := true
  summary := "Read".toList
  outputExcerpt := "x:/home/".toList ++ place

/-- The expression finds no path behind a colon, and the two directories are shown. -/
theorem directories_shown :
    SameButDirectories everyPath none (readEvent "alice/U".toList).outputExcerpt
        (readEvent "bob/U".toList).outputExcerpt ∧
      redactEvent workspaceRoots {} (readEvent "alice/U".toList) ≠
        redactEvent workspaceRoots {} (readEvent "bob/U".toList) := by
  constructor
  · have halice : (readEvent "alice/U".toList).outputExcerpt =
        ['x', ':', '/', 'h', 'o', 'm', 'e', '/', 'a', 'l', 'i', 'c', 'e', '/', 'U'] := by
      decide +kernel
    have hbob : (readEvent "bob/U".toList).outputExcerpt =
        ['x', ':', '/', 'h', 'o', 'm', 'e', '/', 'b', 'o', 'b', '/', 'U'] := by decide +kernel
    have hbody : ∀ cs : Text, cs.all everyPath.stays = true → everyPath.IsBody ('h' :: cs) :=
      fun cs hcs => ⟨'h', cs, rfl, by decide +kernel, List.all_eq_true.mp hcs⟩
    rw [halice, hbob]
    refine .char ?_ ?_ (.char ?_ ?_ (.last rfl (hbody _ (by decide +kernel))
      (hbody _ (by decide +kernel)) (by decide +kernel)))
    all_goals
      rintro ⟨-, c, cs, h, -⟩
      cases h
  · decide +kernel

end Postprocessing
end OpenFoamAgent
