/-
# The steps of a log and the residuals counted in them

`_flush_step` and `feed` of `tools/parsers.py` keep the last residual of each field and, for
each threshold, how many steps in a row have met it. Here the log is divided into its steps:
a step starts at a `Time` line with a new value and ends at the next one or with the log.
What the accumulator keeps is a function of the steps (`follows_of_feeds`): it counts a step
by the samples it has recorded, which in the first step are also those from before the first
`Time` line, and of at most 256 fields.
-/
import Mathlib.Data.Finset.Card
import OpenFoamAgent.Library.TrailingRuns
import OpenFoamAgent.Runtime.StreamEvidence

namespace OpenFoamAgent
namespace Runtime

open Python RuntimeLogAccumulator

/-! ### The steps -/

/-- What a line says of the steps. -/
inductive LogEvent where
  | time (value : Units)
  | residual (field : Text) (initial final : Units)

/-- The residual that a line reports, when its numbers are finite and not negative. -/
def residualOf (line : Bytes) : Option LogEvent :=
  match residualRe.search (decodeReplace line) with
  | none => none
  | some m =>
    match finiteGroup m "initial", finiteGroup m "final" with
    | some initial, some final =>
      if initial < 0 ∨ final < 0 then none
      else some (.residual (strip ((m.group "field").getD [])) initial final)
    | _, _ => none

/-- The events of a line; a line of more than 65536 bytes has none. -/
def eventsOf (line : Bytes) : List LogEvent :=
  if 65536 < line.length then []
  else ((timeOf line).map LogEvent.time).toList ++ (residualOf line).toList

/-- A log divided into its steps. -/
structure Timeline where
  /-- The samples from before the first `Time` line. -/
  before : List ResidualSample := []
  closed : List (List ResidualSample) := []
  /-- The time and the samples of the step under way. -/
  current : Option (Units × List ResidualSample) := none

namespace Timeline

/-- One more event. A `Time` line that repeats the time stays in its step. -/
def note (t : Timeline) : LogEvent → Timeline
  | .time value =>
    match t.current with
    | none => { t with current := some (value, []) }
    | some (time, step) =>
      if time = value then t
      else { t with closed := t.closed ++ [step], current := some (value, []) }
  | .residual field initial final =>
    match t.current with
    | none => { t with before := t.before ++ [⟨0, field, initial, final⟩] }
    | some (time, step) =>
      { t with current := some (time, step ++ [⟨time, field, initial, final⟩]) }

/-- The steps of a log that ends here. -/
def steps (t : Timeline) : List (List ResidualSample) :=
  t.closed ++ (t.current.map (·.2)).toList

end Timeline

/-- The steps of a log. -/
def timeline (log : List Bytes) : Timeline := (log.flatMap eventsOf).foldl Timeline.note {}

/-! ### What is recorded -/

/-- A sample into the last residuals, which hold 256 fields at most. -/
def keepSample (last : Dict Text ResidualSample) (sample : ResidualSample) :
    Dict Text ResidualSample :=
  if 256 ≤ last.keys.length ∧ sample.field ∉ last then last else last.insert sample.field sample

/-- The last residuals after some samples. -/
def recorded (samples : List ResidualSample) : Dict Text ResidualSample :=
  samples.foldl keepSample ∅

/-- The last sample of a field. -/
def deciding (field : Text) (samples : List ResidualSample) : Option ResidualSample :=
  (samples.filter (·.field = field)).getLast?

/-- The fields sampled before the first sample of a field. -/
def fieldsAhead (field : Text) (samples : List ResidualSample) : Finset Text :=
  ((samples.takeWhile (·.field ≠ field)).map (·.field)).toFinset

/-- The field comes behind 256 others. -/
def Crowded (field : Text) (samples : List ResidualSample) : Prop :=
  256 ≤ (fieldsAhead field samples).card

theorem recorded_concat (samples : List ResidualSample) (sample : ResidualSample) :
    recorded (samples ++ [sample]) = keepSample (recorded samples) sample := List.foldl_append

theorem deciding_append (field : Text) (samples samples' : List ResidualSample) :
    deciding field (samples ++ samples') =
      (deciding field samples').or (deciding field samples) := by
  rw [deciding, List.filter_append, List.getLast?_append]
  rfl

theorem deciding_eq_none {field : Text} {samples : List ResidualSample} :
    deciding field samples = none ↔ ∀ s ∈ samples, s.field ≠ field := by
  rw [deciding, List.getLast?_eq_none_iff, List.filter_eq_nil_iff]
  exact forall₂_congr fun s _ => by rw [decide_eq_true_iff]

/-- The fields of some samples. -/
def allFields (samples : List ResidualSample) : Finset Text := (samples.map (·.field)).toFinset

theorem mem_allFields {field : Text} {samples : List ResidualSample} :
    field ∈ allFields samples ↔ ∃ s ∈ samples, s.field = field := by
  rw [allFields, List.mem_toFinset, List.mem_map]

/-- A field that was sampled has all its predecessors. -/
theorem fieldsAhead_append {field : Text} {samples : List ResidualSample}
    (h : field ∈ allFields samples) (samples' : List ResidualSample) :
    fieldsAhead field (samples ++ samples') = fieldsAhead field samples := by
  obtain ⟨s, hs, hfield⟩ := mem_allFields.1 h
  rw [fieldsAhead, fieldsAhead, List.takeWhile_append, if_neg]
  intro hlen
  have heq := (List.takeWhile_prefix fun s : ResidualSample => s.field ≠ field).eq_of_length hlen
  have hall := List.takeWhile_eq_self_iff.1 heq s hs
  exact of_decide_eq_true hall hfield

/-- Ahead of a new field are all those sampled. -/
theorem fieldsAhead_concat {samples : List ResidualSample} {s : ResidualSample}
    (h : s.field ∉ allFields samples) :
    fieldsAhead s.field (samples ++ [s]) = allFields samples := by
  have hall : ∀ x ∈ samples, decide (x.field ≠ s.field) = true :=
    fun x hx => decide_eq_true fun he => h (mem_allFields.2 ⟨x, hx, he⟩)
  rw [fieldsAhead, List.takeWhile_append_of_pos hall]
  simp [allFields]

theorem fieldsAhead_subset (field : Text) (samples : List ResidualSample) :
    fieldsAhead field samples ⊆ allFields samples := by
  intro f hf
  rw [fieldsAhead, List.mem_toFinset] at hf
  rw [allFields, List.mem_toFinset]
  exact List.map_subset _ (List.takeWhile_prefix _).subset hf

theorem deciding_isSome {field : Text} {samples : List ResidualSample} :
    (deciding field samples).isSome ↔ field ∈ allFields samples := by
  rw [Option.isSome_iff_ne_none, Ne, deciding_eq_none, mem_allFields]
  push Not
  exact Iff.rfl

theorem length_keys (d : Dict Text ResidualSample) : d.keys.length = d.keys.toFinset.card :=
  (List.toFinset_card_of_nodup d.keys_nodup).symm

theorem length_keys_insert (d : Dict Text ResidualSample) (s : ResidualSample) :
    (d.insert s.field s).keys.length =
      if s.field ∈ d then d.keys.length else d.keys.length + 1 := by
  have hkeys : (d.insert s.field s).keys.toFinset = insert s.field d.keys.toFinset := by
    ext field
    rw [List.mem_toFinset, ← AList.mem_keys, AList.mem_insert, Finset.mem_insert, List.mem_toFinset,
      ← AList.mem_keys]
  rw [length_keys, length_keys, hkeys]
  split_ifs with h
  · rw [Finset.insert_eq_of_mem (List.mem_toFinset.2 (AList.mem_keys.1 h))]
  · exact Finset.card_insert_of_notMem fun hmem => h (AList.mem_keys.2 (List.mem_toFinset.1 hmem))

theorem allFields_concat (samples : List ResidualSample) (s : ResidualSample) :
    allFields (samples ++ [s]) = insert s.field (allFields samples) := by
  ext field
  simp [allFields]

/-- The last residuals hold the first 256 fields, each with its last sample. -/
structure Records (samples : List ResidualSample) (last : Dict Text ResidualSample) : Prop where
  length : last.keys.length = min 256 (allFields samples).card
  get : ∀ field, last.get field =
    if 256 ≤ (fieldsAhead field samples).card then none else deciding field samples

section

variable {samples : List ResidualSample} {last : Dict Text ResidualSample} {field : Text}

theorem Records.of_mem (h : Records samples last) (hmem : field ∈ last) :
    field ∈ allFields samples ∧ (fieldsAhead field samples).card < 256 := by
  have hsome := Dict.get_isSome.2 hmem
  rw [h.get] at hsome
  split_ifs at hsome with hcrowded
  · exact Bool.noConfusion hsome
  · exact ⟨deciding_isSome.1 hsome, not_le.1 hcrowded⟩

theorem Records.of_notMem (h : Records samples last) (hmem : field ∉ last)
    (hsampled : field ∈ allFields samples) : 256 ≤ (fieldsAhead field samples).card := by
  by_contra hfew
  have hget := h.get field
  rw [if_neg hfew] at hget
  rw [← deciding_isSome, ← hget, Dict.get_isSome] at hsampled
  exact hmem hsampled

/-- A sample of one field leaves another as it was. -/
theorem Records.other (h : Records samples last) {s : ResidualSample} (hne : s.field ≠ field) :
    last.get field = if 256 ≤ (fieldsAhead field (samples ++ [s])).card then none
      else deciding field (samples ++ [s]) := by
  have hdeciding : deciding field (samples ++ [s]) = deciding field samples := by
    rw [deciding_append]
    simp [deciding, hne]
  rw [h.get, hdeciding]
  by_cases hsampled : field ∈ allFields samples
  · rw [fieldsAhead_append hsampled]
  · have hnone : deciding field samples = none := by
      rw [← Option.not_isSome_iff_eq_none, deciding_isSome]
      exact hsampled
    simp only [hnone, ite_self]

theorem deciding_concat (s : ResidualSample) : deciding s.field (samples ++ [s]) = some s := by
  rw [deciding_append]
  simp [deciding]

theorem Records.keep (h : Records samples last) (s : ResidualSample) :
    Records (samples ++ [s]) (keepSample last s) := by
  have hsubset := Finset.card_le_card (Finset.subset_insert s.field (allFields samples))
  unfold keepSample
  split_ifs with hfull
  · obtain ⟨hcount, hnew⟩ := hfull
    have hcard : 256 ≤ (allFields samples).card := by
      have hlength := h.length
      omega
    constructor
    · rw [allFields_concat, h.length]
      omega
    · intro field
      by_cases hfield : s.field = field
      · subst hfield
        have hnone : last.get s.field = none := by
          rw [← Option.not_isSome_iff_eq_none, Dict.get_isSome]
          exact hnew
        rw [hnone, if_pos]
        by_cases hsampled : s.field ∈ allFields samples
        · rw [fieldsAhead_append hsampled]
          exact h.of_notMem hnew hsampled
        · rw [fieldsAhead_concat hsampled]
          exact hcard
      · exact h.other hfield
  · -- the field is known, or there is room for it
    have hroom : s.field ∉ last → s.field ∉ allFields samples ∧ (allFields samples).card < 256 := by
      intro hnew
      have hlength := h.length
      have hfew : (allFields samples).card < 256 := by
        by_contra hmany
        exact hfull ⟨by omega, hnew⟩
      refine ⟨fun hsampled => ?_, hfew⟩
      have hahead := Finset.card_le_card (fieldsAhead_subset s.field samples)
      have hcrowded := h.of_notMem hnew hsampled
      omega
    constructor
    · rw [length_keys_insert, allFields_concat, h.length]
      split_ifs with hold
      · rw [Finset.insert_eq_of_mem (h.of_mem hold).1]
      · obtain ⟨hnew, hfew⟩ := hroom hold
        rw [Finset.card_insert_of_notMem hnew]
        omega
    · intro field
      by_cases hfield : s.field = field
      · subst hfield
        rw [Dict.get_insert_self, deciding_concat, if_neg]
        by_cases hold : s.field ∈ last
        · rw [fieldsAhead_append (h.of_mem hold).1]
          exact not_le.2 (h.of_mem hold).2
        · rw [fieldsAhead_concat (hroom hold).1]
          exact not_le.2 (hroom hold).2
      · rw [Dict.get_insert_of_ne _ _ (Ne.symm hfield)]
        exact h.other hfield

end

/-- **What is recorded of a field**: its last sample, unless 256 other fields came before it. -/
theorem records_recorded (samples : List ResidualSample) : Records samples (recorded samples) := by
  induction samples using List.reverseRecOn with
  | nil => exact ⟨rfl, fun field => by simp [recorded, deciding]⟩
  | append_singleton samples s ih =>
    rw [recorded_concat]
    exact ih.keep s

/-! ### What the accumulator keeps of the steps -/

/-- The fields of the accumulator that count residuals. -/
structure ResidualState where
  current : Option Units := none
  last : Dict Text ResidualSample := ∅
  consecutive : Dict Text ℕ := ∅

/-- The part of the accumulator that counts residuals. -/
def residualState (a : RuntimeLogAccumulator) : ResidualState :=
  ⟨a.currentTime, a.lastResiduals, a.consecutive⟩

namespace ResidualState

variable (thresholds : List ResidualThreshold)

/-- `_flush_step`. -/
def flush (s : ResidualState) : ResidualState :=
  match s.current with
  | none => s
  | some _ =>
    { s with
      consecutive := thresholds.foldl (countThreshold s.last) s.consecutive
      last := ∅ }

/-- One more event. -/
def note (s : ResidualState) : LogEvent → ResidualState
  | .time value =>
    if s.current = some value then s else { s.flush thresholds with current := some value }
  | .residual field initial final =>
    { s with last := keepSample s.last ⟨s.current.getD 0, field, initial, final⟩ }

end ResidualState

variable {contract : LogContract} {a a' : RuntimeLogAccumulator}

theorem residualState_flushStep (hcontract : contract ≠ .missing) :
    residualState (a.flushStep contract) =
      (residualState a).flush contract.thresholds := by
  unfold flushStep ResidualState.flush residualState
  cases contract with
  | missing => exact absurd rfl hcontract
  | runtime c => cases hcurrent : a.currentTime <;> simp [hcurrent]
  | completion c => cases hcurrent : a.currentTime <;> simp [hcurrent]

theorem residualState_noteFatal (line : Text) :
    residualState (a.noteFatal line) = residualState a := by
  unfold noteFatal
  split_ifs <;> rfl

theorem residualState_noteNonFinite (line : Text) :
    residualState (a.noteNonFinite line) = residualState a := by
  unfold noteNonFinite
  split_ifs <;> rfl

theorem residualState_noteTime (hcontract : contract ≠ .missing) (value : Units) :
    residualState (a.noteTime contract value) =
      (residualState a).note contract.thresholds (.time value) := by
  unfold noteTime ResidualState.note
  by_cases h : a.currentTime = some value
  · rw [if_pos h]
    exact (if_pos h).symm
  · rw [if_neg h, ← residualState_flushStep hcontract]
    exact (if_neg h).symm

theorem residualState_readTime (hcontract : contract ≠ .missing) (stripped : Text) :
    residualState (a.readTime contract stripped) =
      (((timeRe.fullmatch stripped).bind (finiteGroup · "time")).map LogEvent.time).toList.foldl
        (ResidualState.note contract.thresholds) (residualState a) := by
  unfold readTime
  cases timeRe.fullmatch stripped with
  | none => rfl
  | some m =>
    rw [Option.bind_some]
    dsimp only
    cases finiteGroup m "time" with
    | none => rfl
    | some value => exact residualState_noteTime hcontract value

theorem residualState_noteResidual (sample : ResidualSample) :
    residualState (a.noteResidual sample) =
      { residualState a with last := keepSample a.lastResiduals sample } := by
  unfold noteResidual keepSample
  dsimp only
  split_ifs <;> rfl

theorem residualState_readCourant (line : Text) :
    residualState (a.readCourant line) = residualState a := by
  unfold readCourant
  split
  · rfl
  · split
    · rfl
    · split_ifs <;> rfl

theorem residualState_readContinuity (line : Text) :
    residualState (a.readContinuity line) = residualState a := by
  unfold readContinuity
  split
  · rfl
  · split <;> rfl

theorem residualState_readEnd (stripped : Text) :
    residualState (a.readEnd stripped) = residualState a := by
  unfold readEnd
  split_ifs <;> rfl

theorem residualState_readResidual {thresholds : List ResidualThreshold} {raw : Bytes}
    (h : a.readResidual (decodeReplace raw) = .ok a') :
    residualState a' = (residualOf raw).toList.foldl (ResidualState.note thresholds)
      (residualState a) := by
  unfold readResidual at h
  unfold residualOf
  generalize residualRe.search (decodeReplace raw) = found at h ⊢
  rcases found with _ | m
  · rw [← Except.ok.inj h]
    rfl
  · dsimp only at h ⊢
    generalize finiteGroup m "initial" = initial at h ⊢
    generalize finiteGroup m "final" = final at h ⊢
    rcases initial with _ | initial
    · rw [← Except.ok.inj h]
      rfl
    rcases final with _ | final
    · rw [← Except.ok.inj h]
      rfl
    dsimp only at h ⊢
    split_ifs at h ⊢
    · rw [← Except.ok.inj h]
      rfl
    · rw [← Except.ok.inj h]
      exact residualState_noteResidual _

/-- **A line and what is kept of the steps**: its events are noted. -/
theorem residualState_feed (hcontract : contract ≠ .missing) {raw : Bytes}
    (h : a.feed contract raw = .ok a') :
    residualState a' = (eventsOf raw).foldl (ResidualState.note contract.thresholds)
      (residualState a) := by
  unfold RuntimeLogAccumulator.feed at h
  unfold eventsOf
  dsimp only at h
  split_ifs at h ⊢
  · rw [← Except.ok.inj h]
    rfl
  obtain ⟨b, hb, h⟩ := Traversal.bind_eq_ok.1 h
  rw [← Except.ok.inj h, residualState_readEnd, residualState_readContinuity,
    residualState_readCourant, residualState_readResidual hb, residualState_readTime hcontract,
    residualState_noteNonFinite, residualState_noteFatal, List.foldl_append]
  rfl

/-! ### Counting the steps -/

/-- The samples that are counted in each step: the first step begins with those from before it. -/
def withBefore (before : List ResidualSample) :
    List (List ResidualSample) → List (List ResidualSample)
  | [] => []
  | step :: steps => (before ++ step) :: steps

theorem withBefore_concat (before step : List ResidualSample) (steps : List (List ResidualSample)) :
    withBefore before (steps ++ [step]) =
      withBefore before steps ++ [(if steps = [] then before else []) ++ step] := by
  cases steps with
  | nil => rfl
  | cons first steps => rfl

/-- The decision of the accumulator: the recorded sample of the field is at most the threshold. -/
def ResidualThreshold.countedIn (x : ResidualThreshold) (samples : List ResidualSample) : Bool :=
  ((recorded samples).get x.field).any (x.value.bounds ·.initialResidual)

/-- The samples recorded in the step under way. -/
def Timeline.openSamples (t : Timeline) : List ResidualSample :=
  (if t.closed = [] then t.before else []) ++ (t.current.map (·.2)).getD []

theorem get_countThreshold_of_ne {last : Dict Text ResidualSample} {consecutive : Dict Text ℕ}
    {x : ResidualThreshold} {field : Text} (h : x.field ≠ field) :
    (countThreshold last consecutive x).get field = consecutive.get field :=
  Dict.get_insert_of_ne _ _ (Ne.symm h)

theorem get_countThresholds_of_notMem {last : Dict Text ResidualSample}
    {thresholds : List ResidualThreshold} {field : Text} (consecutive : Dict Text ℕ)
    (h : field ∉ thresholds.map (·.field)) :
    (thresholds.foldl (countThreshold last) consecutive).get field = consecutive.get field := by
  induction thresholds generalizing consecutive with
  | nil => rfl
  | cons x xs ih =>
    rw [List.map_cons, List.mem_cons, not_or] at h
    rw [List.foldl_cons, ih _ h.2, get_countThreshold_of_ne (Ne.symm h.1)]

/-- Thresholds of distinct fields are counted once each. -/
theorem get_countThresholds {last : Dict Text ResidualSample}
    {thresholds : List ResidualThreshold} (hfields : (thresholds.map (·.field)).Nodup)
    {x : ResidualThreshold} (hx : x ∈ thresholds) (consecutive : Dict Text ℕ) :
    ((thresholds.foldl (countThreshold last) consecutive).get x.field).getD 0 =
      countRun ((consecutive.get x.field).getD 0)
        ((last.get x.field).any (x.value.bounds ·.initialResidual)) := by
  induction thresholds generalizing consecutive with
  | nil => cases hx
  | cons y ys ih =>
    obtain ⟨hnew, hrest⟩ := List.nodup_cons.1 hfields
    rw [List.foldl_cons]
    rcases List.mem_cons.1 hx with rfl | hx
    · rw [get_countThresholds_of_notMem _ hnew, countThreshold, Dict.get_insert_self]
      rfl
    · have hne : y.field ≠ x.field := fun he => hnew (List.mem_map.2 ⟨x, hx, he.symm⟩)
      rw [ih hrest hx, get_countThreshold_of_ne hne]

/-- What the accumulator keeps, as a function of the steps. -/
structure Follows (thresholds : List ResidualThreshold) (t : Timeline) (s : ResidualState) :
    Prop where
  current : s.current = t.current.map (·.1)
  started : t.current = none → t.closed = []
  last : s.last = recorded t.openSamples
  counts : ∀ x ∈ thresholds, (s.consecutive.get x.field).getD 0 =
    trailing ((withBefore t.before t.closed).map x.countedIn)

variable {thresholds : List ResidualThreshold} {t : Timeline} {s : ResidualState}

theorem Follows.initial : Follows thresholds {} {} where
  current := rfl
  started _ := rfl
  last := rfl
  counts _ _ := rfl

/-- A step is counted where it ends. -/
theorem Follows.flush (hfields : (thresholds.map (·.field)).Nodup) (h : Follows thresholds t s)
    {x : ResidualThreshold} (hx : x ∈ thresholds) :
    (((s.flush thresholds).consecutive).get x.field).getD 0 =
      trailing ((withBefore t.before t.steps).map x.countedIn) := by
  unfold ResidualState.flush Timeline.steps
  cases hcurrent : t.current with
  | none =>
    rw [h.current, hcurrent]
    dsimp only [Option.map_none, Option.toList_none]
    rw [List.append_nil]
    exact h.counts x hx
  | some current =>
    rw [h.current, hcurrent]
    dsimp only [Option.map_some, Option.toList_some]
    have hopen : t.openSamples = (if t.closed = [] then t.before else []) ++ current.2 := by
      rw [Timeline.openSamples, hcurrent]
      rfl
    rw [get_countThresholds hfields hx, h.counts x hx, h.last, withBefore_concat, List.map_append,
      List.map_singleton, trailing_concat, ← hopen]
    rfl

theorem Follows.time (hfields : (thresholds.map (·.field)).Nodup) (h : Follows thresholds t s)
    (value : Units) :
    Follows thresholds (t.note (.time value)) (s.note thresholds (.time value)) := by
  unfold Timeline.note ResidualState.note
  have hcounts := fun x hx => h.flush hfields (x := x) hx
  unfold Timeline.steps at hcounts
  unfold ResidualState.flush at hcounts ⊢
  rw [h.current] at hcounts ⊢
  cases hcurrent : t.current with
  | none =>
    -- the first step takes over what is recorded
    rw [hcurrent] at hcounts
    refine ⟨rfl, fun he => (Option.some_ne_none _ he).elim, ?_, fun x hx => h.counts x hx⟩
    have hlast := h.last
    rw [Timeline.openSamples, hcurrent, if_pos (h.started hcurrent)] at hlast
    rw [Timeline.openSamples, if_pos (h.started hcurrent)]
    exact hlast
  | some current =>
    rw [hcurrent] at hcounts
    dsimp only [Option.map_some, Option.toList_some, Option.some.injEq] at hcounts ⊢
    by_cases htime : current.1 = value
    · rw [if_pos htime, if_pos (congrArg some htime)]
      exact h
    · rw [if_neg htime, if_neg fun he => htime (Option.some.inj he)]
      refine ⟨rfl, fun he => (Option.some_ne_none _ he).elim, ?_, hcounts⟩
      rw [Timeline.openSamples, if_neg (by simp)]
      rfl

theorem Follows.residual (h : Follows thresholds t s) (field : Text) (initial final : Units) :
    Follows thresholds (t.note (.residual field initial final))
      (s.note thresholds (.residual field initial final)) := by
  unfold Timeline.note ResidualState.note
  have hlast := h.last
  unfold Timeline.openSamples at hlast
  dsimp only
  rw [h.current, hlast, ← recorded_concat]
  cases hcurrent : t.current with
  | none =>
    have hclosed := h.started hcurrent
    refine ⟨rfl, fun _ => hclosed, ?_, fun x hx => ?_⟩
    · rw [Timeline.openSamples, hclosed]
      simp
    · rw [h.counts x hx, hclosed]
      rfl
  | some current =>
    refine ⟨rfl, fun he => (Option.some_ne_none _ he).elim, ?_, h.counts⟩
    rw [Timeline.openSamples]
    simp

/-- **The steps and what is kept of them**, after any lines. -/
theorem follows_of_feeds (hcontract : contract ≠ .missing)
    (hfields : (contract.thresholds.map (·.field)).Nodup) {log : List Bytes}
    (h : log.foldlM (RuntimeLogAccumulator.feed contract) {} = .ok a) :
    Follows contract.thresholds (timeline log) (residualState a) := by
  have hevents : ∀ (events : List LogEvent) (t : Timeline) (s : ResidualState),
      Follows contract.thresholds t s → Follows contract.thresholds (events.foldl Timeline.note t)
        (events.foldl (ResidualState.note contract.thresholds) s) := by
    intro events
    induction events with
    | nil => exact fun _ _ h => h
    | cons event events ih =>
      intro t s hfollows
      refine ih _ _ ?_
      cases event with
      | time value => exact hfollows.time hfields value
      | residual field initial final => exact hfollows.residual field initial final
  refine Traversal.foldlM_induct (P := fun log a =>
    Follows contract.thresholds (timeline log) (residualState a)) h .initial ?_
  intro done raw _ b b' hfollows hfeed
  rw [residualState_feed hcontract hfeed]
  have htimeline : timeline (done ++ [raw]) =
      (eventsOf raw).foldl Timeline.note (timeline done) := by
    simp [timeline, List.flatMap_append]
  rw [htimeline]
  exact hevents _ _ _ hfollows

end Runtime
end OpenFoamAgent
