/-
# Executable case plans

`ExecuteCasePlanAction`: an authored action bound to a plan. Its before-validator puts
the plan's file manifest in the place of the authored one, and the nested plan is
validated from its dump.
-/
import OpenFoamAgent.Schemas.AuthoringReload

namespace OpenFoamAgent
namespace Schemas

open Python

/-- `ExecuteCasePlanAction`: the part it shares with an authored action, and its plan. -/
structure ExecuteCasePlanAction where
  action : CaseAuthoringAction
  plan : EngineeringPlan
  deriving DecidableEq

/-- `ExecuteCasePlanAction.model_validate` of a payload and the dump of a plan; `reload` is
`EngineeringPlan.model_validate` of a dumped plan. -/
def ExecuteCasePlanAction.modelValidate (reload : EngineeringPlan → Option EngineeringPlan)
    (order : SetOrder) (raw : AuthoringPayload) (plan : EngineeringPlan) :
    Option ExecuteCasePlanAction := do
  let action ← CaseAuthoringAction.modelValidate order true
    { raw with requiredCaseFiles := plan.requiredCaseFiles }
  let plan ← reload plan
  guard (action.requiredCaseFiles = plan.requiredCaseFiles)
  return { action, plan }

/-- A value that came out of `CaseAuthoringAction.model_validate`. -/
def CaseAuthoringAction.Validated (execute : Bool) (a : CaseAuthoringAction) : Prop :=
  ∃ order raw, modelValidate order execute raw = some a

namespace CaseAuthoringAction.Validated

variable {execute : Bool} {a : CaseAuthoringAction}

theorem sound (h : a.Validated execute) : a.Sound :=
  let ⟨_, _, h⟩ := h
  sound_of_modelValidate h

theorem nodup_paths (h : a.Validated execute) : a.paths.Nodup :=
  let ⟨_, _, h⟩ := h
  CaseAuthoringAction.nodup_paths (modelValidate_eq_some.1 h).2

theorem conflicts (h : a.Validated execute) :
    (a.authoringConflicts.filter nonBlank).take conflictLimit = a.authoringConflicts :=
  let ⟨_, _, h⟩ := h
  conflicts_of_modelValidate h

end CaseAuthoringAction.Validated

namespace ExecuteCasePlanAction

variable {reload : EngineeringPlan → Option EngineeringPlan} {order : SetOrder}

/-- What validating a payload built from a sound action gives. -/
theorem of_modelValidate {a : CaseAuthoringAction} {plan : EngineeringPlan}
    {result : ExecuteCasePlanAction} (hsound : a.Sound)
    (h : modelValidate reload order a.modelDump plan = some result) :
    result.action.Validated true ∧ result.action.files = a.files ∧
      result.action.typedDictionaries = a.typedDictionaries ∧
      result.action.blockMesh = a.blockMesh ∧
      result.action.authoringConflicts =
        (a.authoringConflicts.filter nonBlank).take conflictLimit := by
  simp only [modelValidate, Option.bind_eq_bind, Option.bind_eq_some_iff, Option.guard_eq_some',
    Option.pure_def, Option.some.injEq] at h
  obtain ⟨action, haction, -, -, -, -, rfl⟩ := h
  have hbound : CaseAuthoringAction.Sound { a with requiredCaseFiles := plan.requiredCaseFiles } :=
    ⟨hsound.files, hsound.typed, hsound.settled, hsound.nodup⟩
  exact ⟨⟨_, _, haction⟩, hbound.of_modelValidate haction⟩

end ExecuteCasePlanAction

/-- A plan that requires the given files. -/
def planRequiring (paths : List String) : EngineeringPlan where
  caseName := "pipe".toList
  solver := "incompressibleFluid".toList
  solverProviderId := "p".toList
  openfoamVersion := "13".toList
  problemInterpretation := "laminar".toList
  temporalBehavior := .transient
  motionKind := .static
  meshMotionRequirement := .static
  meshStrategy := "blockMesh".toList
  requiredCaseFiles := paths.map String.toList
  confirmedIntakeSha256 := "0".toList

end Schemas
end OpenFoamAgent
