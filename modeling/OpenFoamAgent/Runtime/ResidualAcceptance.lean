/-
# When residual acceptance is reported

Lines 181 to 194 of `tools/parsers.py` report the residual thresholds as met when every
counter has reached the required number of steps. What that should say of the log is
`Accepted`: in each of the last steps every required field was sampled, and its last sample
is at most the threshold.

The two agree unless the first step is counted with a sample from before it, because
`_flush_step` returns before the first `Time` line without clearing what was recorded
(`Carried`), or a sample was not recorded because 256 other fields of its step came first
(`Dropped`). A field with two thresholds is counted twice in each step; the theorem is about
thresholds of distinct fields.
-/
import OpenFoamAgent.Runtime.ResidualSteps

namespace OpenFoamAgent
namespace Runtime

open Python RuntimeLogAccumulator

/-! ### What acceptance says of a log -/

/-- The step has a sample of the field, and the last one is at most the threshold. -/
def ResidualThreshold.metIn (x : ResidualThreshold) (step : List ResidualSample) : Bool :=
  (deciding x.field step).any (x.value.bounds ·.initialResidual)

/-- Every threshold is met in each of the last `required` steps. -/
def Accepted (thresholds : List ResidualThreshold) (required : ℕ)
    (steps : List (List ResidualSample)) : Prop :=
  ∀ x ∈ thresholds, required ≤ steps.length ∧ ∀ step ∈ suffixOf required steps, x.metIn step = true

/-- The log has no more than the required steps, the first of them has no sample of a required
field, and with the samples from before it every threshold is counted in every step. -/
structure Carried (thresholds : List ResidualThreshold) (required : ℕ)
    (before : List ResidualSample) (steps : List (List ResidualSample)) : Prop where
  length : steps.length = required
  unsampled : ∃ x ∈ thresholds, ∃ first ∈ steps.head?, ∀ s ∈ first, s.field ≠ x.field
  counted : ∀ x ∈ thresholds, ∀ samples ∈ withBefore before steps, x.countedIn samples = true

/-- Every threshold is met in the last steps, but in one of them a required field came behind
256 others. -/
structure Dropped (thresholds : List ResidualThreshold) (required : ℕ)
    (before : List ResidualSample) (steps : List (List ResidualSample)) : Prop where
  accepted : Accepted thresholds required steps
  crowded : ∃ x ∈ thresholds, ∃ samples ∈ suffixOf required (withBefore before steps),
    Crowded x.field samples

/-! ### Counted and met -/

variable {x : ResidualThreshold} {before : List ResidualSample}
variable {steps : List (List ResidualSample)} {thresholds : List ResidualThreshold} {required : ℕ}

theorem countedIn_iff {samples : List ResidualSample} :
    x.countedIn samples = true ↔ ¬ Crowded x.field samples ∧ x.metIn samples = true := by
  rw [ResidualThreshold.countedIn, (records_recorded samples).get, ResidualThreshold.metIn, Crowded]
  split_ifs with h
  · simp [h]
  · simp [h]

/-- A step with a sample of the field is decided by it, whatever came before. -/
theorem metIn_append {step : List ResidualSample} (h : ∃ s ∈ step, s.field = x.field) :
    x.metIn (before ++ step) = x.metIn step := by
  have hsome : deciding x.field step ≠ none := by
    rw [Ne, deciding_eq_none]
    push Not
    exact h
  obtain ⟨s, hs⟩ := Option.ne_none_iff_exists'.1 hsome
  rw [ResidualThreshold.metIn, ResidualThreshold.metIn, deciding_append, hs, Option.some_or]

theorem sampled_of_metIn {step : List ResidualSample} (h : x.metIn step = true) :
    ∃ s ∈ step, s.field = x.field := by
  by_contra hnone
  push Not at hnone
  rw [ResidualThreshold.metIn, deciding_eq_none.2 hnone] at h
  exact Bool.noConfusion h

theorem length_withBefore : (withBefore before steps).length = steps.length := by
  cases steps <;> rfl

/-- Steps that do not reach back to the first one are counted by their own samples. -/
theorem suffixOf_withBefore (h : required < steps.length) :
    suffixOf required (withBefore before steps) = suffixOf required steps := by
  cases steps with
  | nil => exact absurd h (Nat.not_lt_zero _)
  | cons first steps =>
    have hle : required ≤ steps.length := Nat.le_of_lt_succ h
    rw [withBefore, suffixOf_cons_of_le hle, suffixOf_cons_of_le hle]

/-- The samples are those of the step, or of the first step with those from before it. -/
def CountedFor (required : ℕ) (before : List ResidualSample) (steps : List (List ResidualSample))
    (samples step : List ResidualSample) : Prop :=
  samples = step ∨
    samples = before ++ step ∧ steps.head? = some step ∧ steps.length ≤ required

/-- The last steps and the samples counted in them, one by one. -/
theorem forall₂_suffixOf : List.Forall₂ (CountedFor required before steps)
    (suffixOf required (withBefore before steps)) (suffixOf required steps) := by
  rcases Nat.lt_or_ge required steps.length with h | h
  · rw [suffixOf_withBefore h]
    exact List.forall₂_same.2 fun _ _ => .inl rfl
  · rw [suffixOf_of_length_le h, suffixOf_of_length_le (length_withBefore.trans_le h)]
    cases steps with
    | nil => exact .nil
    | cons first steps =>
      exact .cons (.inr ⟨rfl, rfl, h⟩) (List.forall₂_same.2 fun _ _ => .inl rfl)

theorem exists_right {α β : Type} {R : α → β → Prop} {l : List α} {r : List β}
    (h : List.Forall₂ R l r) {a : α} (ha : a ∈ l) : ∃ b ∈ r, R a b := by
  induction h with
  | nil => cases ha
  | cons hab _ ih =>
    rcases List.mem_cons.1 ha with rfl | ha
    · exact ⟨_, List.mem_cons_self, hab⟩
    · obtain ⟨b, hb, hr⟩ := ih ha
      exact ⟨b, List.mem_cons_of_mem _ hb, hr⟩

/-- The samples counted for a step that meets a threshold meet it. -/
theorem CountedFor.metIn {samples step : List ResidualSample}
    (h : CountedFor required before steps samples step) (hmet : x.metIn step = true) :
    x.metIn samples = true := by
  rcases h with rfl | ⟨rfl, -⟩
  · exact hmet
  · rw [metIn_append (sampled_of_metIn hmet)]
    exact hmet

/-- Every threshold is counted in each of the last steps. -/
def Counted (thresholds : List ResidualThreshold) (required : ℕ) (before : List ResidualSample)
    (steps : List (List ResidualSample)) : Prop :=
  ∀ x ∈ thresholds, required ≤ steps.length ∧
    ∀ samples ∈ suffixOf required (withBefore before steps), x.countedIn samples = true

theorem Carried.disagrees (h : Carried thresholds required before steps) :
    Counted thresholds required before steps ∧ ¬ Accepted thresholds required steps := by
  constructor
  · intro x hx
    refine ⟨h.length.ge, fun samples hsamples => h.counted x hx samples ?_⟩
    rwa [suffixOf_of_length_le (length_withBefore.trans_le h.length.le)] at hsamples
  · intro haccepted
    obtain ⟨x, hx, first, hfirst, hnone⟩ := h.unsampled
    have hmet := (haccepted x hx).2 first (by
      rw [suffixOf_of_length_le h.length.le]
      exact List.mem_of_mem_head? hfirst)
    obtain ⟨s, hs, hfield⟩ := sampled_of_metIn hmet
    exact hnone s hs hfield

theorem Dropped.disagrees (h : Dropped thresholds required before steps) :
    Accepted thresholds required steps ∧ ¬ Counted thresholds required before steps := by
  refine ⟨h.accepted, fun hcounted => ?_⟩
  obtain ⟨x, hx, samples, hsamples, hcrowded⟩ := h.crowded
  exact (countedIn_iff.1 ((hcounted x hx).2 samples hsamples)).1 hcrowded

theorem carried_of_disagrees (hcounted : Counted thresholds required before steps)
    (hnot : ¬ Accepted thresholds required steps) : Carried thresholds required before steps := by
  unfold Accepted at hnot
  push Not at hnot
  obtain ⟨x, hx, hnot⟩ := hnot
  obtain ⟨hlength, hall⟩ := hcounted x hx
  obtain ⟨step, hstep, hunmet⟩ := hnot hlength
  obtain ⟨samples, hsamples, hfor⟩ := exists_right forall₂_suffixOf.flip hstep
  have hmet := (countedIn_iff.1 (hall samples hsamples)).2
  rcases hfor with rfl | ⟨rfl, hfirst, hle⟩
  · exact absurd hmet hunmet
  · refine ⟨le_antisymm hle hlength, ⟨x, hx, step, hfirst, fun s hs hfield => ?_⟩, ?_⟩
    · rw [metIn_append ⟨s, hs, hfield⟩] at hmet
      exact hunmet hmet
    · intro y hy samples hsamples
      refine (hcounted y hy).2 samples ?_
      rwa [suffixOf_of_length_le (length_withBefore.trans_le hle)]

theorem dropped_of_disagrees (haccepted : Accepted thresholds required steps)
    (hnot : ¬ Counted thresholds required before steps) :
    Dropped thresholds required before steps := by
  unfold Counted at hnot
  push Not at hnot
  obtain ⟨x, hx, hnot⟩ := hnot
  obtain ⟨hlength, hall⟩ := haccepted x hx
  obtain ⟨samples, hsamples, huncounted⟩ := hnot hlength
  obtain ⟨step, hstep, hfor⟩ := exists_right forall₂_suffixOf hsamples
  refine ⟨haccepted, x, hx, samples, hsamples, by_contra fun hroom => huncounted ?_⟩
  exact countedIn_iff.2 ⟨hroom, hfor.metIn (hall step hstep)⟩

/-- **Where the counters and the steps agree.** -/
theorem counted_iff_accepted :
    (Counted thresholds required before steps ↔ Accepted thresholds required steps) ↔
      ¬ Carried thresholds required before steps ∧ ¬ Dropped thresholds required before steps := by
  constructor
  · intro h
    exact ⟨fun hc => hc.disagrees.2 (h.1 hc.disagrees.1),
      fun hd => hd.disagrees.2 (h.2 hd.disagrees.1)⟩
  · rintro ⟨hcarried, hdropped⟩
    exact ⟨fun h => by_contra fun hnot => hcarried (carried_of_disagrees h hnot),
      fun h => by_contra fun hnot => hdropped (dropped_of_disagrees h hnot)⟩

/-! ### The report -/

/-- The report says whether the thresholds are met. -/
structure Reports (acceptance : ResultAcceptanceContract) (r : SimulationResult) (met : Prop) :
    Prop where
  warned : AcceptanceWarning.thresholds ∈ r.acceptanceWarnings ↔ ¬ met
  verified : r.numericalQualityVerified = true ↔ met ∧ acceptance.criteriaComplete = true

variable {a : RuntimeLogAccumulator} {runtime : RuntimeContract} {r : SimulationResult}
variable {returnCode : ℤ} {driver reason : Text}

theorem converged_iff {n : ℕ} : a.converged thresholds n = true ↔
    ∀ x ∈ thresholds, n ≤ (a.consecutive.get x.field).getD 0 := by
  rw [converged, List.all_eq_true]
  exact forall₂_congr fun x _ => decide_eq_true_iff

theorem reports_acceptance (bound : ExecutionBoundContract) (acceptance : ResultAcceptanceContract)
    (hwarnings : r.acceptanceWarnings = (a.acceptance bound acceptance).2)
    (hverified : r.numericalQualityVerified = (a.acceptance bound acceptance).1) :
    Reports acceptance r
      (a.converged acceptance.residualThresholds acceptance.consecutiveSamples = true) := by
  have hcontract : AcceptanceWarning.thresholds ∉
      (bound.warnings ++ acceptance.warnings).map AcceptanceWarning.contract := by
    intro h
    obtain ⟨_, _, h⟩ := List.mem_map.1 h
    cases h
  unfold RuntimeLogAccumulator.acceptance at hwarnings hverified
  by_cases hempty : acceptance.residualThresholds = []
  · have hall : a.converged acceptance.residualThresholds acceptance.consecutiveSamples = true := by
      rw [hempty]
      rfl
    rw [if_neg (not_not.2 hempty)] at hwarnings hverified
    refine ⟨?_, ?_⟩
    · rw [hwarnings]
      exact iff_of_false hcontract (not_not.2 hall)
    · rw [hverified]
      exact (and_iff_right hall).symm
  · rw [if_pos hempty] at hwarnings hverified
    dsimp only at hwarnings hverified
    cases hconverged : a.converged acceptance.residualThresholds acceptance.consecutiveSamples with
    | true =>
      rw [hconverged] at hwarnings hverified
      rw [if_neg (show true ≠ false by decide)] at hwarnings
      have hadvisory : AcceptanceWarning.thresholds ∉
          if acceptance.criteriaComplete = false then [AcceptanceWarning.advisory] else [] := by
        split_ifs <;> simp
      refine ⟨?_, ?_⟩
      · rw [hwarnings, List.mem_append]
        exact iff_of_false (not_or.2 ⟨hcontract, hadvisory⟩) (not_not.2 rfl)
      · simp [hverified]
    | false =>
      rw [hconverged] at hwarnings hverified
      refine ⟨?_, ?_⟩
      · rw [hwarnings]
        simp
      · simp [hverified]

theorem reports_finish (h : a.finish (.runtime runtime) returnCode driver reason = .ok r) :
    Reports runtime.resultAcceptance r ((a.flushStep (.runtime runtime)).converged
      runtime.resultAcceptance.residualThresholds
      runtime.resultAcceptance.consecutiveSamples = true) := by
  unfold finish at h
  obtain ⟨⟨⟨termination, judged⟩, accepted, warnings⟩, hjudge, h⟩ := Traversal.bind_eq_ok.1 h
  obtain rfl := Except.ok.inj h
  have hpair := congrArg (·.2) (Except.ok.inj hjudge)
  exact reports_acceptance runtime.executionBound runtime.resultAcceptance
    (congrArg (·.2) hpair).symm (congrArg (·.1) hpair).symm

theorem Reports.iff {acceptance : ResultAcceptanceContract} {met met' : Prop}
    (h : Reports acceptance r met) : Reports acceptance r met' ↔ (met ↔ met') := by
  constructor
  · intro h'
    exact not_iff_not.1 (h.warned.symm.trans h'.warned)
  · intro hiff
    exact ⟨h.warned.trans (not_congr hiff), h.verified.trans (and_congr_left' hiff)⟩

/-- **When residual acceptance is reported as it should be**, for thresholds of distinct fields. -/
theorem residual_acceptance_iff {stream : Bytes}
    (hfields : (runtime.resultAcceptance.residualThresholds.map (·.field)).Nodup)
    (h : parseRuntimeStream (.runtime runtime) returnCode driver reason stream = .ok r) :
    let t := timeline (reads 65537 stream.length stream)
    let thresholds := runtime.resultAcceptance.residualThresholds
    let required := runtime.resultAcceptance.consecutiveSamples
    Reports runtime.resultAcceptance r (Accepted thresholds required t.steps) ↔
      ¬ Carried thresholds required t.before t.steps ∧
        ¬ Dropped thresholds required t.before t.steps := by
  intro t thresholds required
  obtain ⟨a, hfeeds, hfinish⟩ := Traversal.bind_eq_ok.1 h
  have hcontract : LogContract.runtime runtime ≠ .missing := fun h => by cases h
  have hfollows := follows_of_feeds hcontract hfields hfeeds
  rw [(reports_finish hfinish).iff, ← counted_iff_accepted]
  refine iff_congr (converged_iff.trans (forall₂_congr fun x hx => ?_)) Iff.rfl
  have hcount : (((a.flushStep (.runtime runtime)).consecutive).get x.field).getD 0 =
      trailing ((withBefore t.before t.steps).map x.countedIn) := by
    change ((residualState (a.flushStep (.runtime runtime))).consecutive.get x.field).getD 0 = _
    rw [residualState_flushStep hcontract]
    exact hfollows.flush hfields hx
  rw [hcount, le_trailing_iff, List.length_map, length_withBefore, ← map_suffixOf]
  exact and_congr_right' List.forall_mem_map

/-! ### A sample from before the first step -/

/-- One step in which the residual of `p` is at most `1e-5`. -/
def onePressureStep : RuntimeContract where
  executionBound := { mode := .steady }
  resultAcceptance := {
    residualThresholds := [⟨"p".toList, (parseFloat "1e-5".toList).getD .nan⟩]
    consecutiveSamples := 1
    criteriaComplete := true }

/-- The only sample of the log stands before its first `Time` line. -/
def sampledBefore : Bytes :=
  encode (["Solving for p, Initial residual = 1e-06, ", "Final residual = 1e-07\n",
    "Time = 1s\nEnd\n"].flatMap String.toList)

theorem onePressureStep_distinct :
    (onePressureStep.resultAcceptance.residualThresholds.map (·.field)).Nodup := by
  decide +kernel

theorem sampledBefore_verified : (parseRuntimeStream (.runtime onePressureStep) 0 "foamRun".toList
    "exited".toList sampledBefore).toOption.any SimulationResult.numericalQualityVerified := by
  decide +kernel

theorem residual_acceptance_iff_sampledBefore : ∃ r,
    parseRuntimeStream (.runtime onePressureStep) 0 "foamRun".toList "exited".toList
      sampledBefore = .ok r ∧
    let t := timeline (reads 65537 sampledBefore.length sampledBefore)
    let thresholds := onePressureStep.resultAcceptance.residualThresholds
    Reports onePressureStep.resultAcceptance r (Accepted thresholds 1 t.steps) ↔
      ¬ Carried thresholds 1 t.before t.steps ∧ ¬ Dropped thresholds 1 t.before t.steps := by
  obtain ⟨r, hr, -⟩ := exists_ok sampledBefore_verified
  exact ⟨r, hr, residual_acceptance_iff onePressureStep_distinct hr⟩

/-- **A sample from before the first `Time` line is counted.** The one step of the log has no
sample of the required field, and the thresholds are reported as met. -/
theorem sampledBefore_accepted : ∃ r,
    parseRuntimeStream (.runtime onePressureStep) 0 "foamRun".toList "exited".toList
      sampledBefore = .ok r ∧ r.numericalQualityVerified = true ∧
    ¬ Reports onePressureStep.resultAcceptance r
      (Accepted onePressureStep.resultAcceptance.residualThresholds
        onePressureStep.resultAcceptance.consecutiveSamples
        (timeline (reads 65537 sampledBefore.length sampledBefore)).steps) := by
  obtain ⟨r, hr, hverified⟩ := exists_ok sampledBefore_verified
  refine ⟨r, hr, hverified, fun hreports => ?_⟩
  have haccepted := (hreports.verified.1 hverified).1
  have hsteps : (timeline (reads 65537 sampledBefore.length sampledBefore)).steps = [[]] := by
    decide +kernel
  rw [hsteps] at haccepted
  have hmet := (haccepted _ List.mem_cons_self).2 [] List.mem_cons_self
  cases hmet

end Runtime
end OpenFoamAgent
