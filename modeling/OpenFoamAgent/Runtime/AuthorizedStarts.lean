/-
# What the solver is started on

A run of the orchestrator starts the solver at most `max_attempts` times. Between two starts a
repair may change the plan, the case and the approval; what it cannot change is what the user
approved. `Inherits` follows the frozen part of the approval through a repair
(`repairRuntime_inherits`).
-/
import OpenFoamAgent.Runtime.Orchestrator
import OpenFoamAgent.Engineering.RepairOutcomes

namespace OpenFoamAgent

open Python Schemas Workspace Contracts Workflow

namespace Engineering

/-! ### What an approval freezes -/

/-- The part of an approval that no repair changes. -/
structure SameAuthority (a a' : ExecutionApproval) : Prop where
  execution : a'.executionSha256 = a.executionSha256
  physicalPlan : a'.physicalPlanSha256 = a.physicalPlanSha256
  intake : a'.intakeSha256 = a.intakeSha256
  manifest : a'.approvedManifestSha256 = a.approvedManifestSha256
  files : a'.approvedFiles = a.approvedFiles
  limits : a'.resourceLimits = a.resourceLimits

/-- The approval is gone, or freezes what the earlier one did. -/
def Inherits (o o' : Option ExecutionApproval) : Prop :=
  ∀ a', o' = some a' → ∃ a, o = some a ∧ SameAuthority a a'

namespace Inherits

variable {o o' o'' : Option ExecutionApproval}

theorem refl (o : Option ExecutionApproval) : Inherits o o :=
  fun a h => ⟨a, h, rfl, rfl, rfl, rfl, rfl, rfl⟩

theorem of_eq (h : o' = o) : Inherits o o' := h ▸ refl o

theorem of_none (h : o' = none) : Inherits o o' := by
  rintro a' rfl
  cases h

theorem trans (h : Inherits o o') (h' : Inherits o' o'') : Inherits o o'' := by
  intro a'' h''
  obtain ⟨a', ha', hsame'⟩ := h' a'' h''
  obtain ⟨a, ha, hsame⟩ := h a' ha'
  exact ⟨a, ha, hsame'.execution.trans hsame.execution,
    hsame'.physicalPlan.trans hsame.physicalPlan, hsame'.intake.trans hsame.intake,
    hsame'.manifest.trans hsame.manifest, hsame'.files.trans hsame.files,
    hsame'.limits.trans hsame.limits⟩

end Inherits

namespace Controller

variable {m : Machine} {c c' : Controller}

theorem settle_inherits (m : Machine) (c : Controller) (phase : Phase) (b : Bool) :
    Inherits c.executionApproval (c.settle m phase b).1.executionApproval := by
  by_cases hstale : c.MeshStale m
  · exact .of_none (settle_approval_of_stale phase b hstale)
  · rw [settle_of_not_stale phase b hstale]
    exact .refl _

theorem dispatch_inherits (m : Machine) (c : Controller) (phase : Phase) (a : CaseAction) :
    Inherits c.executionApproval (c.dispatch m phase a).1.executionApproval := by
  have hdispatched := dispatched m c phase a
  have hperform := (perform_sameBeside m c a).approval
  have hsettle : ∀ b, Inherits c.executionApproval
      ((c.perform m a).1.settle m phase b).1.executionApproval := fun b =>
    (Inherits.of_eq hperform).trans (settle_inherits m _ phase b)
  generalize c.dispatch m phase a = r at hdispatched ⊢
  obtain ⟨c', report⟩ := r
  dsimp only at hdispatched ⊢
  cases hdispatched with
  | unauthorized hpolicy => exact .of_eq (phasePolicy_frame c phase a.path).2.2
  | refused => exact .refl _
  | unnamed => exact .refl _
  | notPerformed => exact .of_eq hperform
  | notSettled meshAffecting => exact hsettle meshAffecting
  | done meshAffecting => exact hsettle meshAffecting

theorem authorizeRepair_inherits {plan : EngineeringPlan} {changedFiles : Dict Text Text}
    (h : c.authorizeRepair plan changedFiles = .ok c') :
    Inherits c.executionApproval c'.executionApproval := by
  unfold authorizeRepair at h
  split at h
  · cases h
    exact .refl _
  · rename_i approval happroval
    split at h
    · cases h
    · split at h
      · cases h
      · rename_i approval' hdelta
        cases h
        rintro a' ha'
        obtain rfl := Option.some.inj ha'
        refine ⟨approval, happroval, ?_⟩
        unfold ExecutionApproval.checkRepairDelta at hdelta
        rcases hmaps : approval.repairPaths c.workspace approval.repairMaps changedFiles.items
          with e | maps
        · rw [hmaps] at hdelta
          cases hdelta
        · rw [hmaps] at hdelta
          cases hdelta
          exact ⟨rfl, rfl, rfl, rfl, rfl, rfl⟩

end Controller

/-! ### Repairs -/

namespace RuntimeSession

variable {A R W : Type} {t : RepairTools A R W} {s s' : RuntimeSession W} {solver : Text}
  {start : ℕ} {event : EngineeringEvent} {outcome : Option RepairOutcome}

/-- The approval of a session. -/
abbrev approval (s : RuntimeSession W) : Option ExecutionApproval := s.controller.executionApproval

theorem observeTool_inherits {tool : RepairTool A} (h : s.observeTool t tool = some (event, s')) :
    Inherits s.approval s'.approval := by
  obtain ⟨e, -, he⟩ := Option.map_eq_some_iff.1 h
  cases he
  exact .refl _

theorem dispatchTool_inherits {tool : RepairTool A} (h : s.dispatchTool t tool = some (event, s')) :
    Inherits s.approval s'.approval := by
  cases tool with
  | edit a =>
    obtain ⟨event', -, he⟩ := Option.map_eq_some_iff.1 h
    cases he
    exact Controller.dispatch_inherits t.machine { s.controller with repairReviewRequired := none }
      .runtimeRepair a
  | other a => exact observeTool_inherits h
  | native command arguments =>
    simp only [dispatchTool, dispatchNative] at h
    split at h
    · cases h
      exact .refl _
    · split_ifs at h
      · cases h
        exact .refl _
      · exact observeTool_inherits h

theorem dispatchRetrySolver_inherits {plan : EngineeringPlan}
    (h : s.dispatchRetrySolver t solver plan = some (event, outcome, s')) :
    Inherits s.approval s'.approval := by
  unfold dispatchRetrySolver at h
  split at h
  · cases h
  · rename_i c hvalidate
    cases h
    refine .of_eq ?_
    dsimp only [approval]
    rw [(validateRetry_eq hvalidate).1]
  · rename_i c hvalidate
    split at h
    · cases h
    · cases h
      refine .of_eq ?_
      dsimp only [approval]
      rw [(validateRetry_eq hvalidate).1]

theorem dispatchMember_inherits {member : RepairMember A}
    (h : s.dispatchMember t solver member = some (event, outcome, s')) :
    Inherits s.approval s'.approval := by
  cases member with
  | retrySolver plan => exact dispatchRetrySolver_inherits h
  | finishPreview =>
    cases h
    exact .refl _
  | tool tool =>
    unfold dispatchMember at h
    obtain ⟨⟨event', s₁⟩, hr, heq⟩ := Option.map_eq_some_iff.1 h
    cases heq
    exact dispatchTool_inherits hr

theorem closeRepair_approval (s : RuntimeSession W) (o : RepairOutcome) :
    (s.closeRepair o).approval = s.approval := by
  unfold closeRepair
  dsimp only
  split <;> rfl

theorem dispatchMembers_inherits {closes : Bool} {members : List (RepairMember A)}
    (h : dispatchMembers t solver start closes members s = some (outcome, s')) :
    Inherits s.approval s'.approval := by
  induction members generalizing s with
  | nil =>
    cases h
    exact .refl _
  | cons member members ih =>
    unfold dispatchMembers at h
    split_ifs at h
    · cases h
      exact .of_eq (closeRepair_approval s _)
    · cases h
      exact .refl _
    · split at h
      · cases h
      · rename_i event outcome₁ s₁ hmember
        have hinherited := dispatchMember_inherits hmember
        have hinherits : Inherits s.approval (s₁.record event).approval := hinherited
        dsimp only at h
        split_ifs at h
        · cases h
          exact hinherits
        · split at h
          · cases h
            exact hinherits
          · exact hinherits.trans (ih h)

theorem executeRepairDelta_inherits {plan : EngineeringPlan} {changedFiles : Dict Text Text}
    {dropPaths : List Text} {consumers : List (RepairMember A)} {failures : List Text}
    (h : s.executeRepairDelta t solver start plan changedFiles dropPaths consumers failures =
      some (outcome, s')) : Inherits s.approval s'.approval := by
  unfold executeRepairDelta at h
  dsimp only at h
  split at h
  · obtain ⟨o, -, heq⟩ := Option.map_eq_some_iff.1 h
    cases heq
    exact .refl _
  · rename_i authorized hauthorized
    have hauthorized := Controller.authorizeRepair_inherits hauthorized
    split_ifs at h
    · cases h
      exact hauthorized
    · cases h
      exact hauthorized
    · cases h
      exact hauthorized
    · split at h
      · cases h
      · rename_i committed hcommit
        have hsame := Controller.commit_executionApproval t.machine authorized changedFiles.items
          dropPaths
        rw [hcommit] at hsame
        exact hauthorized.trans ((Inherits.of_eq hsame).trans (dispatchMembers_inherits h))

theorem dispatchAction_inherits {action : RepairMember A}
    (h : s.dispatchAction t solver action = some (outcome, s')) :
    Inherits s.approval s'.approval := by
  unfold dispatchAction at h
  split at h
  · cases h
  · rename_i event outcome₁ s₁ hmember
    have hinherits := dispatchMember_inherits hmember
    dsimp only at h
    split at h <;>
    · cases h
      exact hinherits

theorem repairTurn_inherits {action : RepairAction A R}
    (h : s.repairTurn t solver start action = some (outcome, s')) :
    Inherits s.approval s'.approval := by
  cases action with
  | repair r =>
    replace h : s.executeRuntimeRepairPlan t solver start (t.compile s.world s.controller r) =
      some (outcome, s') := h
    generalize t.compile s.world s.controller r = compiled at h
    cases compiled with
    | refused actionType reason =>
      cases h
      exact .refl _
    | rejected reason =>
      cases h
      exact .refl _
    | delta => exact executeRepairDelta_inherits h
  | sequence members => exact dispatchMembers_inherits h
  | retrySolver plan =>
    unfold repairTurn at h
    split_ifs at h
    · cases h
      exact .refl _
    · exact dispatchAction_inherits h
  | block needsUserInput reason =>
    unfold repairTurn at h
    split_ifs at h <;>
    · cases h
      exact .refl _
  | tool tool =>
    unfold repairTurn at h
    split_ifs at h
    · cases h
      exact .refl _
    · exact dispatchAction_inherits h

/-- A loop over the turns ends by closing the repair with its outcome. -/
theorem repairLoop_inherits {steps : ℕ} {o : RepairOutcome}
    (h : repairLoop t solver start steps s = some (o, s')) :
    Inherits s.approval s'.approval ∧ ∃ s₀ : RuntimeSession W, s' = s₀.closeRepair o := by
  induction steps generalizing s with
  | zero =>
    cases h
    exact ⟨.of_eq (closeRepair_approval s _), s, rfl⟩
  | succ steps ih =>
    unfold repairLoop at h
    split at h
    · cases h
    · split at h
      · cases h
      · rename_i o₁ s₁ hturn
        cases h
        exact ⟨(repairTurn_inherits hturn).trans (.of_eq (closeRepair_approval s₁ _)), s₁, rfl⟩
      · rename_i s₁ hturn
        obtain ⟨hrest, hclosed⟩ := ih h
        exact ⟨(repairTurn_inherits hturn).trans hrest, hclosed⟩

theorem checkRepair_approval (s : RuntimeSession W) : s.checkRepair.1.approval = s.approval := by
  unfold checkRepair
  split
  · dsimp only
    split
    · rfl
    · split_ifs
      · rfl
      · split
        · rfl
        · split <;> rfl
  · rfl

/-- **A repair keeps what the user approved.** -/
theorem repairRuntime_inherits {o : RepairOutcome} (h : s.repairRuntime t = some (o, s')) :
    Inherits s.approval s'.approval ∧ ∃ s₀ : RuntimeSession W, s' = s₀.closeRepair o := by
  have hchecked := checkRepair_approval { s with edits := [] }
  unfold repairRuntime at h
  generalize checkRepair { s with edits := [] } = r at h hchecked
  obtain ⟨s₁, o₁ | plan⟩ := r
  · cases h
    exact ⟨.of_eq ((closeRepair_approval s₁ _).trans hchecked), s₁, rfl⟩
  · obtain ⟨hloop, hclosed⟩ := repairLoop_inherits h
    exact ⟨(Inherits.of_eq hchecked).trans hloop, hclosed⟩

end RuntimeSession
end Engineering
end OpenFoamAgent
