/-
# The effective time-step ceiling under automatic repairs

`check_repair_delta` compares each time-step entry of `system/controlDict` with
its own previous and original value. The step the solver may take is a joint
matter: `deltaT` bounds it while `adjustTimeStep` is off, `maxDeltaT` while it is
on. So a change of `adjustTimeStep` alone can raise the ceiling, when the
approved file has the two entries apart: a comment in the source says that
enabling adaptive steps must not authorize increases beyond the original fixed
time step, and the check takes the original `maxDeltaT` as the limit instead.

`run_ceiling_iff`: these changes of the mode are the only way.
-/
import Mathlib.Order.WithBot
import OpenFoamAgent.Contracts.FrozenEntries

namespace OpenFoamAgent
namespace Contracts

open Python Schemas Workspace ExecutionApproval

/-- `adjustTimeStep` is on. -/
def adaptive (text : Text) : Prop :=
  ∃ literal ∈ trueLiterals, entryPayload text "adjustTimeStep".toList = some [literal]

instance (text : Text) : Decidable (adaptive text) :=
  inferInstanceAs (Decidable (∃ literal ∈ trueLiterals, _))

/-- The bound of the entry that counts in the mode of the text. -/
def boundingScalar (text : Text) : Option ℕ :=
  if adaptive text then entryScalar text "maxDeltaT".toList else entryScalar text "deltaT".toList

/-- The effective time-step ceiling: `deltaT`, or `maxDeltaT` when `adjustTimeStep` is on and
no bound when it is absent. -/
def ceiling (text : Text) : WithTop ℕ :=
  match boundingScalar text with
  | some n => WithTop.some n
  | none => ⊤

/-- Where `text` has another mode than the approved text, the entry that bounds its steps is
at most the one that bounds the approved ones. -/
def KeepsMode (approved text : Text) : Prop :=
  (adaptive text → ¬ adaptive approved →
    ∀ cap ∈ entryScalar text "maxDeltaT".toList, ∀ d ∈ entryScalar approved "deltaT".toList,
      cap ≤ d) ∧
  (¬ adaptive text → adaptive approved →
    ∀ d ∈ entryScalar text "deltaT".toList, ∀ cap ∈ entryScalar approved "maxDeltaT".toList,
      d ≤ cap)

instance (approved text : Text) : Decidable (KeepsMode approved text) :=
  inferInstanceAs (Decidable ((_ → _ → ∀ cap ∈ entryScalar text _, ∀ d ∈ entryScalar approved _, _) ∧
    (_ → _ → ∀ d ∈ entryScalar text _, ∀ cap ∈ entryScalar approved _, _)))

/-- Positive time-step values: `deltaT` is a positive scalar, and `maxDeltaT` where it is. -/
structure PositiveTimeSteps (text : Text) : Prop where
  deltaT : (entryScalar text "deltaT".toList).isSome
  maxDeltaT : ((topLevelEntryPayloads text).1.get "maxDeltaT".toList).isSome →
    (entryScalar text "maxDeltaT".toList).isSome

/-! ### One text against the approved one -/

/-- What the time-step entries of an authorized text are, against those of the approved one. -/
structure TimeStepsFrom (approved text : Text) : Prop where
  deltaT : ((topLevelEntryPayloads approved).1.get "deltaT".toList).isSome →
    Reduced "deltaT".toList approved text
  maxDeltaT : ((topLevelEntryPayloads approved).1.get "maxDeltaT".toList).isSome →
    Reduced "maxDeltaT".toList approved text
  cap : adaptive text → ¬ adaptive approved → (entryScalar text "maxDeltaT".toList).isSome

theorem TimeStepsFrom.refl (text : Text) : TimeStepsFrom text text :=
  ⟨fun _ => .refl _ _, fun _ => .refl _ _, fun h hnot => absurd h hnot⟩

theorem adaptive_congr {s t : Text}
    (h : entryPayload s "adjustTimeStep".toList = entryPayload t "adjustTimeStep".toList) :
    adaptive s ↔ adaptive t := by
  unfold adaptive
  rw [h]

/-- A change that switches `adjustTimeStep` on has a `maxDeltaT`. -/
theorem checkAdjustTimeStep_eq_ok {after original : Entries}
    (h : checkAdjustTimeStep after original = .ok ()) :
    ∃ literal ∈ literalBooleans, after.get "adjustTimeStep".toList = some literal ∧
      (literal ∈ trueLiterals →
        ∃ cap, positiveScalar (after.get "maxDeltaT".toList) "maxDeltaT".toList = .ok cap) := by
  unfold checkAdjustTimeStep at h
  split at h
  · cases h
  · rename_i literal hget
    split_ifs at h with hliteral htrue
    · obtain ⟨cap, hcap, -⟩ := Traversal.bind_eq_ok.1 h
      exact ⟨literal, hliteral, hget, fun _ => ⟨cap, hcap⟩⟩
    · exact ⟨literal, hliteral, hget, fun htrue' => absurd htrue' htrue⟩

/-- The literals read as themselves. -/
theorem canonical_literal : ∀ literal ∈ literalBooleans, canonicalFrom 0 literal = [literal] := by
  decide +kernel

theorem checkControlDict_cap {protectedEntries : List Text} {current proposed baseline : Text}
    (h : checkControlDict protectedEntries current proposed baseline = .ok ())
    (hne : entryPayload proposed "adjustTimeStep".toList ≠
      entryPayload current "adjustTimeStep".toList) (hadaptive : adaptive proposed) :
    (entryScalar proposed "maxDeltaT".toList).isSome := by
  have hentry := ((checkControlDict_eq_ok h).2.2 _ hne).2.2
  rw [checkControlEntry, if_pos rfl] at hentry
  obtain ⟨literal, hliteral, hget, hcap⟩ := checkAdjustTimeStep_eq_ok hentry
  obtain ⟨literal', htrue, hpayload⟩ := hadaptive
  have hsame : literal = literal' := by
    rw [entryPayload, hget] at hpayload
    have heq : canonicalFrom 0 literal = [literal'] := Option.some.inj hpayload
    rw [canonical_literal literal hliteral] at heq
    exact List.head_eq_of_cons_eq heq
  obtain ⟨cap, hcap⟩ := hcap (hsame ▸ htrue)
  rw [(entryScalar_eq_some _).2 hcap]
  rfl

theorem Chain.timeSteps {approval : ExecutionApproval} {path baseline text : Text}
    (h : Chain approval .controlDict path baseline text) : TimeStepsFrom baseline text := by
  refine ⟨h.controlDict_reduced (by decide), h.controlDict_reduced (by decide), ?_⟩
  induction h with
  | approved => exact fun h hnot => absurd h hnot
  | @change current proposed hchain _ hchange ih =>
    intro hadaptive hnot
    by_cases hne : entryPayload proposed "adjustTimeStep".toList =
        entryPayload current "adjustTimeStep".toList
    · -- the mode is that of the text before, whose `maxDeltaT` is there and can only shrink
      obtain ⟨cap, hcap⟩ := Option.isSome_iff_exists.1 (ih ((adaptive_congr hne).1 hadaptive) hnot)
      obtain ⟨n, hn, -⟩ := ((checkControlDict_reduced hchange (by decide)).1
        (get_isSome_of_entryScalar hcap)).scalar hcap
      rw [hn]
      rfl
    · exact checkControlDict_cap hchange hne hadaptive

theorem ceiling_of_adaptive {text : Text} (h : adaptive text) {n : ℕ}
    (hn : entryScalar text "maxDeltaT".toList = some n) : ceiling text = WithTop.some n := by
  rw [ceiling, boundingScalar, if_pos h, hn]

theorem ceiling_of_not_adaptive {text : Text} (h : ¬ adaptive text) {n : ℕ}
    (hn : entryScalar text "deltaT".toList = some n) : ceiling text = WithTop.some n := by
  rw [ceiling, boundingScalar, if_neg h, hn]

/-- The ceiling of an authorized text, against that of the approved one. -/
theorem TimeStepsFrom.ceiling_le_iff {approved text : Text} (hp : PositiveTimeSteps approved)
    (h : TimeStepsFrom approved text) :
    ceiling text ≤ ceiling approved ↔ KeepsMode approved text := by
  obtain ⟨d, hd⟩ := Option.isSome_iff_exists.1 hp.deltaT
  obtain ⟨n, hn, hle⟩ := (h.deltaT (get_isSome_of_entryScalar hd)).scalar hd
  by_cases htext : adaptive text <;> by_cases happ : adaptive approved
  · refine iff_of_true ?_ ⟨fun _ hnot => absurd happ hnot, fun hnot => absurd htext hnot⟩
    cases hmax : (topLevelEntryPayloads approved).1.get "maxDeltaT".toList with
    | none =>
      have htop : ceiling approved = ⊤ := by
        rw [ceiling, boundingScalar, if_pos happ, entryScalar, hmax]
        rfl
      rw [htop]
      exact le_top
    | some payload =>
      obtain ⟨m, hm⟩ := Option.isSome_iff_exists.1 (hp.maxDeltaT (by rw [hmax]; rfl))
      obtain ⟨m', hm', hle'⟩ := (h.maxDeltaT (by rw [hmax]; rfl)).scalar hm
      rw [ceiling_of_adaptive htext hm', ceiling_of_adaptive happ hm]
      exact WithTop.coe_le_coe.2 hle'
  · obtain ⟨cap, hcap⟩ := Option.isSome_iff_exists.1 (h.cap htext happ)
    rw [ceiling_of_adaptive htext hcap, ceiling_of_not_adaptive happ hd, WithTop.coe_le_coe]
    refine ⟨fun hle => ⟨fun _ _ c hc e he => ?_, fun hnot => absurd htext hnot⟩, fun hk => ?_⟩
    · obtain rfl := Option.some.inj (hcap.symm.trans hc)
      obtain rfl := Option.some.inj (hd.symm.trans he)
      exact hle
    · exact hk.1 htext happ cap hcap d hd
  · cases hmax : (topLevelEntryPayloads approved).1.get "maxDeltaT".toList with
    | none =>
      have hnone : entryScalar approved "maxDeltaT".toList = none := by
        rw [entryScalar, hmax]
        rfl
      have htop : ceiling approved = ⊤ := by rw [ceiling, boundingScalar, if_pos happ, hnone]
      rw [htop]
      refine iff_of_true le_top ⟨fun ht => absurd ht htext, fun _ _ _ _ cap hcap => ?_⟩
      rw [hnone] at hcap
      cases hcap
    | some payload =>
      obtain ⟨m, hm⟩ := Option.isSome_iff_exists.1 (hp.maxDeltaT (by rw [hmax]; rfl))
      rw [ceiling_of_not_adaptive htext hn, ceiling_of_adaptive happ hm, WithTop.coe_le_coe]
      refine ⟨fun hle => ⟨fun ht => absurd ht htext, fun _ _ e he c hc => ?_⟩, fun hk => ?_⟩
      · obtain rfl := Option.some.inj (hn.symm.trans he)
        obtain rfl := Option.some.inj (hm.symm.trans hc)
        exact hle
      · exact hk.2 htext happ n hn m hm
  · rw [ceiling_of_not_adaptive htext hn, ceiling_of_not_adaptive happ hd]
    exact iff_of_true (WithTop.coe_le_coe.2 hle)
      ⟨fun ht => absurd ht htext, fun _ ha => absurd ha happ⟩

/-! ### Runs -/

/-- An accepted candidate is committed. -/
def CommittedWhenAccepted (s : RepairState) (a : RepairAttempt) : Prop :=
  s.Accepts a.changed → s.Commits a

instance (s : RepairState) (a : RepairAttempt) : Decidable (CommittedWhenAccepted s a) :=
  inferInstanceAs (Decidable (_ → _))

/-- An accepted `controlDict` keeps the mode of the approved one, or is bounded in its own. -/
def KeepsApprovedMode (approved : Text) (s : RepairState) (a : RepairAttempt) : Prop :=
  s.Accepts a.changed → ∀ proposed ∈ a.changed.get controlDictPath, KeepsMode approved proposed

instance (approved : Text) (s : RepairState) (a : RepairAttempt) :
    Decidable (KeepsApprovedMode approved s a) :=
  inferInstanceAs (Decidable (_ → ∀ proposed ∈ a.changed.get controlDictPath, KeepsMode _ proposed))

namespace Session

variable {approval : ExecutionApproval} {w : CaseWorkspace} {s : RepairState}

theorem timeSteps (hi : Issued approval w) (h : Session approval w s) :
    TimeStepsFrom (fileText w controlDictPath) (fileText s.workspace controlDictPath) := by
  rcases h.controlDict hi with hsame | hchain
  · rw [hsame]
    exact .refl _
  · exact hchain.timeSteps

/-- The `controlDict` behind an attempt: the candidate's, when it is accepted with one, or the
one before. -/
theorem controlDict_attempt (hi : Issued approval w) (h : Session approval w s) {a : RepairAttempt}
    (ha : CommittedWhenAccepted s a) :
    (s.Accepts a.changed ∧ ∃ proposed ∈ a.changed.get controlDictPath,
      fileText (s.attempt a).workspace controlDictPath = proposed) ∨
    (∀ proposed ∈ a.changed.get controlDictPath, ¬ s.Accepts a.changed) ∧
      fileText (s.attempt a).workspace controlDictPath = fileText s.workspace controlDictPath := by
  by_cases hacc : s.Accepts a.changed
  · obtain ⟨hfiles, hothers⟩ := h.commit_files hi hacc (ha hacc)
    cases hget : a.changed.get controlDictPath with
    | some proposed => exact .inl ⟨hacc, proposed, rfl, fileText_of_fileAt (hfiles _ _ hget)⟩
    | none =>
      refine .inr ⟨fun proposed hp => absurd hp (Option.not_mem_none proposed),
        fileText_congr (hothers _ fun q proposed hq heq => ?_)⟩
      obtain ⟨d, hd⟩ := Option.isSome_iff_exists.1 (h.repairable_of_accepts hacc hq).2
      rw [← (hi.approved q d hd).1, ← heq, asPosix_locate_controlDictPath, hget] at hq
      cases hq
  · exact .inr ⟨fun _ _ => hacc, by rw [s.attempt_of_not_accepts hacc]⟩

end Session

/-- **The time-step ceiling.** An approval issued on a case whose `controlDict` has positive
time-step values: in a run of attempts whose accepted candidates are committed, the ceiling
never exceeds the approved one if and only if every accepted `controlDict` with another mode
than the approved one is bounded by the approved bound. -/
theorem run_ceiling_iff {w : CaseWorkspace} {caseSeal : CaseSeal} {as : List RepairAttempt}
    (plan : EngineeringPlan) (limits : Option ResourceLimits) (hnamed : w.Named)
    (hseal : w.executionFileSeals = .ok caseSeal.files)
    (hpositive : PositiveTimeSteps (fileText w controlDictPath))
    (hrun : Runs.Meets RepairState.attempt CommittedWhenAccepted
      ⟨.issue plan caseSeal limits, w⟩ as) :
    (∀ before after, as = before ++ after →
      ceiling (fileText (Runs.run RepairState.attempt ⟨.issue plan caseSeal limits, w⟩
        before).workspace controlDictPath) ≤ ceiling (fileText w controlDictPath)) ↔
    Runs.Meets RepairState.attempt (KeepsApprovedMode (fileText w controlDictPath))
      ⟨.issue plan caseSeal limits, w⟩ as := by
  have hi := Issued.issue plan limits hnamed hseal
  have hsession : ∀ before after, as = before ++ after → Session (.issue plan caseSeal limits) w
      (Runs.run RepairState.attempt ⟨.issue plan caseSeal limits, w⟩ before) := by
    rintro before after rfl
    exact Runs.invariant (fun s a h ha => h.attempt hi fun hacc => .inl (ha hacc))
      hrun.append_left (.start hi)
  rw [Runs.meets_iff]
  constructor
  · rintro hceiling before a after rfl hacc proposed hget
    have hbefore := hsession before (a :: after) rfl
    have hlast := Runs.run_append RepairState.attempt ⟨.issue plan caseSeal limits, w⟩ before [a]
    have hsplit : before ++ a :: after = (before ++ [a]) ++ after := by simp
    rcases hbefore.controlDict_attempt hi (Runs.meets_iff.1 hrun before a after rfl) with
      ⟨-, proposed', hget', htext⟩ | ⟨hnot, -⟩
    · obtain rfl : proposed = proposed' := Option.some.inj (hget.symm.trans hget')
      have hle := hceiling _ _ hsplit
      rw [(hsession _ _ hsplit).timeSteps hi |>.ceiling_le_iff hpositive, hlast] at hle
      rwa [Runs.run_cons, Runs.run_nil, htext] at hle
    · exact absurd hacc (hnot proposed hget)
  · intro hmode before
    induction before using List.reverseRecOn with
    | nil => exact fun _ _ => le_rfl
    | append_singleton before a ih =>
      intro after heq
      have hsplit : as = before ++ a :: after := by rw [heq]; simp
      have hkeeps := hmode before a after hsplit
      have hbefore := hsession before (a :: after) hsplit
      have hnow := (hsession _ _ heq).timeSteps hi
      rw [Runs.run_append, Runs.run_cons, Runs.run_nil] at hnow ⊢
      rcases hbefore.controlDict_attempt hi (Runs.meets_iff.1 hrun before a after hsplit) with
        ⟨hacc, proposed, hget, htext⟩ | ⟨-, hsame⟩
      · rw [hnow.ceiling_le_iff hpositive, htext]
        exact hkeeps hacc proposed hget
      · rw [hsame]
        exact ih (a :: after) hsplit

/-- Adaptive steps with a `maxDeltaT` below the approved `deltaT`, and then a smaller one. -/
theorem run_ceiling_example :
    let w := caseWith "deltaT 2e-3;\n"
    let approval := ExecutionApproval.issue (planWith []) (sealOf w (planWith [])) none
    ∀ before after,
      [repairOf [("system/controlDict", "deltaT 2e-3; adjustTimeStep yes; maxDeltaT 2e-3;\n")],
        repairOf [("system/controlDict", "deltaT 2e-3; adjustTimeStep yes; maxDeltaT 1e-3;\n")]] =
        before ++ after →
      ceiling (fileText (Runs.run RepairState.attempt ⟨approval, w⟩ before).workspace
        controlDictPath) ≤ ceiling (fileText w controlDictPath) :=
  (run_ceiling_iff _ none (CaseWorkspace.named_of_keys (by decide +kernel)) (by decide +kernel)
    ⟨by decide +kernel, by decide +kernel⟩ (by decide +kernel)).2 (by decide +kernel)

/-- With `maxDeltaT` approved above the fixed `deltaT`, an accepted and committed repair that
only switches `adjustTimeStep` on raises the ceiling. -/
theorem adaptive_raises_ceiling :
    let w := caseWith "deltaT 1e-3;\nmaxDeltaT 1;\n"
    let approval := ExecutionApproval.issue (planWith []) (sealOf w (planWith [])) none
    let repair := repairOf [("system/controlDict",
      "deltaT 1e-3;\nmaxDeltaT 1;\nadjustTimeStep true;\n")]
    w.executionFileSeals = .ok (sealOf w (planWith [])).files ∧
      RepairState.Accepts ⟨approval, w⟩ repair.changed ∧
      RepairState.Commits ⟨approval, w⟩ repair ∧
      ¬ ceiling (fileText (RepairState.attempt ⟨approval, w⟩ repair).workspace controlDictPath) ≤
        ceiling (fileText w controlDictPath) := by
  decide +kernel

end Contracts
end OpenFoamAgent
