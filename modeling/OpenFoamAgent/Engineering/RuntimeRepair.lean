/-
# Runtime repair

`repair_runtime`, `_execute_runtime_sequence`, `_dispatch_retry_solver` and
`_runtime_repair_outcome` of `engineering/agent.py`, and
`execute_runtime_repair_plan` of `repair_controller.py` from its compiled actions
on.

What the model asks for, what a repair compiles to, what a tool does to the case
and what the validations of a plan find are arguments: functions of the
controller and of everything else (`world`). A result of `none` is an exception
that leaves the repair. The edits that were dispatched are kept beside the
session, each with the controller that dispatched it.
-/
import OpenFoamAgent.Engineering.Deltas
import OpenFoamAgent.Runtime.ExecutionPolicy
import OpenFoamAgent.Workflow.State

namespace OpenFoamAgent
namespace Engineering

open Python Schemas Workspace Contracts Workflow
open OpenFoamAgent.Runtime (NativeHost CommandEffect commandEffect)

/-- `RuntimeRepairDecision`. -/
inductive RuntimeRepairDecision where
  | retrySolver | needsUserReview | strategyRevision | blocked
  deriving DecidableEq

/-- The reason of an outcome: a text, or that of an exception. -/
inductive RepairReason where
  | text (t : Text)
  | approval (e : ApprovalError)
  | caseSeal (e : SealError)

/-- `RepairOutcome`. -/
structure RepairOutcome where
  decision : RuntimeRepairDecision
  plan : Option EngineeringPlan := none
  reason : RepairReason := .text []

/-- An outcome with a text for its reason. -/
def RepairOutcome.because (decision : RuntimeRepairDecision) (reason : Text) : RepairOutcome where
  decision := decision
  reason := .text reason

/-! ### Actions -/

/-- An action that `_dispatch_tool_action` takes; `other` neither edits the case nor names a
native command. -/
inductive RepairTool (A : Type) where
  | edit (a : CaseAction)
  /-- `RunNativeOpenFOAMAction`, `RunMeshCommandAction`. -/
  | native (command : Text) (arguments : List Text)
  | other (a : A)

/-- A member of a sequence or of a compiled repair. -/
inductive RepairMember (A : Type) where
  | retrySolver (plan : EngineeringPlan)
  | finishPreview
  | tool (t : RepairTool A)

/-- The action of a turn. -/
inductive RepairAction (A R : Type) where
  /-- `RuntimeCaseRepairAction`, `RepairCasePlanAction`. -/
  | repair (r : R)
  | sequence (members : List (RepairMember A))
  | retrySolver (plan : EngineeringPlan)
  | block (needsUserInput : Bool) (reason : Text)
  | tool (t : RepairTool A)

/-- What a repair compiles to. -/
inductive CompiledRepair (A : Type) where
  /-- There is no case-file change, or its serialization failed. -/
  | refused (actionType reason : Text)
  /-- A `WorkspaceSafetyError`. -/
  | rejected (reason : Text)
  | delta (plan : EngineeringPlan) (changedFiles : Dict Text Text) (dropPaths : List Text)
    (consumers : List (RepairMember A)) (toolchainFailures : List Text)

/-- What a tool leaves. -/
structure ToolEffect (W : Type) where
  event : EngineeringEvent
  workspace : CaseWorkspace
  meshManifestByScope : Dict Text MeshDigest
  presolveCaseManifest : Option (Sha256 (List CaseFileSeal))
  presolveRequiredCaseFiles : Option (List Text)
  world : W

/-- The model, the tools and the validations of a repair. -/
structure RepairTools (A R W : Type) where
  machine : Machine
  native : NativeHost
  nativeExecution : Bool
  maxRuntimeRepairSteps : ℕ
  requireSolveReadyGate : Bool
  /-- `_generate_turn`. -/
  generateTurn : W → Controller → Option (RepairAction A R × W)
  /-- `_runtime_repair_actions` and `_repair_actions`, with the toolchain preflight. -/
  compile : W → Controller → R → CompiledRepair A
  /-- A tool that edits no case file. -/
  observe : W → Controller → RepairTool A → Option (ToolEffect W)
  /-- The failures of `validate_plan`, of the mesh evidence, of the provenance and of the
  engineering defaults. -/
  planFailures : W → Controller → EngineeringPlan → List Text
  nativeInputFailures : CaseWorkspace → List Text
  presolveFailures : CaseWorkspace → EngineeringPlan → List Text

/-- The controller, with the workflow state around it. -/
structure RuntimeSession (W : Type) where
  controller : Controller
  currentState : State
  /-- `_repair_review_required` -/
  repairReview : Option Text := none
  world : W
  edits : List (Controller × CaseAction) := []

/-- `Native repair changes physical/mesh inputs; explicit user review is required.` -/
def nativeReviewText : Text :=
  "Native repair changes physical/mesh inputs; explicit user review is required.".toList

/-- `This repair changes more than numerical settings; explicit user review is required.` -/
def editReviewText : Text :=
  "This repair changes more than numerical settings; explicit user review is required.".toList

/-- `Runtime repair requires a durable execution approval.` -/
def approvalMissingText : Text :=
  "Runtime repair requires a durable execution approval.".toList

/-- The effects that no engineering phase may have, by name. -/
def unapprovedEffect : CommandEffect → Option Text
  | .registered .solve => some "solve".toList
  | .registered .destructive => some "destructive".toList
  | .registered .unknown => some "unknown".toList
  | .registered .reconstruction => some "reconstruction".toList
  | _ => none

/-- The effects that a runtime repair leaves to the user. -/
def changesInputs : CommandEffect → Bool
  | .registered .mesh | .registered .initialization | .registered .decomposition | .write => true
  | _ => false

namespace RuntimeSession

variable {A R W : Type} (t : RepairTools A R W) (s : RuntimeSession W)

/-- `CFDState.transition`. -/
def transition (newState : State) : RuntimeSession W := { s with currentState := newState }

/-- `state.engineering_events.append(event)`. -/
def record (event : EngineeringEvent) : RuntimeSession W :=
  { s with controller := s.controller.record event }

/-- A failed event with a summary of its own. -/
def failedEvent (actionType summary : Text) : EngineeringEvent where
  actionType := actionType
  success := false
  summary := .other summary

/-! ### Tools -/

/-- The controller behind a tool. -/
def afterTool (c : Controller) (e : ToolEffect W) : Controller :=
  { c with
    workspace := e.workspace
    meshManifestByScope := e.meshManifestByScope
    presolveCaseManifest := e.presolveCaseManifest
    presolveRequiredCaseFiles := e.presolveRequiredCaseFiles }

/-- A tool that edits no case file. -/
def observeTool (tool : RepairTool A) : Option (EngineeringEvent × RuntimeSession W) :=
  (t.observe s.world s.controller tool).map fun e =>
    (e.event, { s with controller := afterTool s.controller e, world := e.world })

/-- A native command: what it may do in a repair is checked first. -/
def dispatchNative (command : Text) (arguments : List Text) :
    Option (EngineeringEvent × RuntimeSession W) :=
  -- The registry of effects is asked without an installation.
  let effect := commandEffect { t.native with solverExecutables := [] } command arguments
  match unapprovedEffect effect with
  | some name =>
    some (failedEvent "run_openfoam_command".toList ("Tool action rejected: Native ".toList ++
      command ++ " has effect=".toList ++ name ++
      "; engineering prepare/repair cannot authorize it.".toList), s)
  | none =>
    if changesInputs effect then
      some (failedEvent "run_openfoam_command".toList
        ("Tool action rejected: ".toList ++ nativeReviewText), { s with repairReview := some nativeReviewText })
    else s.observeTool t (.native command arguments)

/-- `_dispatch_tool_action` in the phase of the repair. -/
def dispatchTool : RepairTool A → Option (EngineeringEvent × RuntimeSession W)
  | .edit a =>
    -- The text that the dispatcher leaves is the last one.
    let c := { s.controller with repairReviewRequired := none }
    let r := c.dispatch t.machine .runtimeRepair a
    r.2.map fun event =>
      (event, { s with
        controller := r.1
        repairReview := if r.1.repairReviewRequired.isSome then some editReviewText
          else s.repairReview
        edits := s.edits ++ [(c, a)] })
  | .native command arguments => s.dispatchNative t command arguments
  | .other a => s.observeTool t (.other a)

/-! ### The retry of the solver -/

/-- The approval is asked about the plan of a retry and about the case. -/
def approvesRetry (c : Controller) (plan : EngineeringPlan) : Bool :=
  match c.executionApproval with
  | none => true
  | some approval =>
    match approval.checkPlan plan, c.workspace.sealCase t.machine.host plan with
    | .ok (), .ok candidate => (approval.checkRepairFiles candidate).isOk
    | _, _ => false

/-- The gate in front of a retry; its verdict is kept. -/
def presolveGate (c : Controller) (plan : EngineeringPlan) : Option (Controller × List Text) :=
  if !t.requireSolveReadyGate then some (c, [])
  else
    match c.workspace.manifestDigest with
    | .error _ => none
    | .ok manifest =>
      if c.presolveCaseManifest = some manifest ∧
          c.presolveRequiredCaseFiles = some plan.requiredCaseFiles then some (c, [])
      else
        match t.presolveFailures c.workspace plan with
        | [] => some ({ c with
            presolveCaseManifest := some manifest
            presolveRequiredCaseFiles := some plan.requiredCaseFiles }, [])
        | failures => some (c, failures)

/-- The validation of a retry. -/
def validateRetry (approvedSolver : Text) (plan : EngineeringPlan) : Option (Controller × Bool) :=
  let c := s.controller
  let valid := (t.planFailures s.world c plan).isEmpty && approvesRetry t c plan &&
    decide (plan.solver = approvedSolver)
  if valid && t.nativeExecution then
    (presolveGate t c plan).map fun r =>
      (r.1, (t.nativeInputFailures c.workspace).isEmpty && r.2.isEmpty)
  else some (c, valid)

/-- `_dispatch_retry_solver`. -/
def dispatchRetrySolver (approvedSolver : Text) (plan : EngineeringPlan) :
    Option (EngineeringEvent × Option RepairOutcome × RuntimeSession W) :=
  match s.validateRetry t approvedSolver plan with
  | none => none
  | some (c, false) =>
    some (failedEvent "retry_solver".toList
      "Solver retry was rejected by deterministic safety/pre-solve validation.".toList, none,
      { s with controller := c })
  | some (c, true) =>
    match c.workspace.sealCase t.machine.host plan with
    | .error _ => none
    | .ok caseSeal =>
      some
        ({ actionType := "retry_solver".toList
           success := true
           summary := .other ("Runtime repair validated, pre-solve complete, and sealed; ".toList ++
             "solver retry requested.".toList) },
          some { decision := .retrySolver, plan := some plan },
          { s with
            controller := { c with engineeringPlan := some plan, caseSeal := some caseSeal }
            currentState := .simulation })

/-! ### Sequences and compiled repairs -/

/-- `_runtime_repair_outcome`. -/
def closeRepair (o : RepairOutcome) : RuntimeSession W :=
  let revoked := { s with controller := { s.controller with solveApproved := false } }
  match o.decision with
  | .retrySolver => s.transition .simulation
  | .needsUserReview | .strategyRevision => revoked.transition .engineeringReviewRequired
  | .blocked => revoked.transition .engineeringBlocked

/-- The budget of actions since the repair began is spent. -/
def actionsSpent (start : ℕ) : Bool :=
  s.controller.policy.maxRuntimeRepairToolActions ≤ s.controller.engineeringEvents.length - start

/-- The outcome of a spent budget. -/
def budgetOutcome : RepairOutcome :=
  .because .blocked ("Runtime repair deterministic action budget exhausted (".toList ++
    (Nat.repr s.controller.policy.maxRuntimeRepairToolActions).toList ++ ").".toList)

/-- A member of a sequence or of a compiled repair. -/
def dispatchMember (approvedSolver : Text) :
    RepairMember A → Option (EngineeringEvent × Option RepairOutcome × RuntimeSession W)
  | .retrySolver plan => s.dispatchRetrySolver t approvedSolver plan
  | .finishPreview =>
    some (failedEvent "finish_preview".toList
      ("finish_preview is not valid inside runtime repair; ".toList ++
        "use retry_solver as the sequence terminator.".toList), none, s)
  | .tool tool => (s.dispatchTool t tool).map fun r => (r.1, none, r.2)

/-- The outcome behind a failed event. -/
def failedOutcome (outcome : Option RepairOutcome) : Option RepairOutcome :=
  match s.repairReview with
  | some reason => some (.because .needsUserReview reason)
  | none => outcome

/-- The loop over the members of a sequence (`closes`) or of a compiled repair. -/
def dispatchMembers (approvedSolver : Text) (start : ℕ) (closes : Bool) :
    List (RepairMember A) → RuntimeSession W → Option (Option RepairOutcome × RuntimeSession W)
  | [], s => some (none, s)
  | member :: members, s =>
    if s.actionsSpent start then
      some (some s.budgetOutcome, if closes then s.closeRepair s.budgetOutcome else s)
    else
      match s.dispatchMember t approvedSolver member with
      | none => none
      | some (event, outcome, s') =>
        let s' := s'.record event
        if !event.success then some (s'.failedOutcome outcome, s')
        else
          match outcome with
          | some outcome => some (some outcome, s')
          | none => dispatchMembers approvedSolver start closes members s'

/-- The summary of a toolchain that is not ready. -/
def toolchainSummary : Text :=
  "Runtime repair requires an unavailable native OpenFOAM toolchain; ".toList ++
    "no repair mutation was committed.".toList

/-- The outcome of an authorization that was refused; `none` is an exception that is not caught. -/
def refusedOutcome (plan : EngineeringPlan) (e : ApprovalError) : Option RepairOutcome :=
  match e with
  | .workspace _ => none
  | e =>
    let planRefused := s.controller.executionApproval.any fun a => !(a.checkPlan plan).isOk
    some { decision := if planRefused then .needsUserReview else .blocked, reason := .approval e }

/-- `Runtime repair action budget cannot cover atomic CaseDeltaGraph (… needed, … remaining).` -/
def uncoveredText (total start : ℕ) : Text :=
  let remaining : ℤ := s.controller.policy.maxRuntimeRepairToolActions -
    (s.controller.engineeringEvents.length - start : ℕ)
  "Runtime repair action budget cannot cover atomic CaseDeltaGraph (".toList ++
    (Nat.repr total).toList ++ " needed, ".toList ++ (toString remaining).toList ++
    " remaining).".toList

/-- `execute_runtime_repair_plan`, for a compiled delta. -/
def executeRepairDelta (approvedSolver : Text) (start : ℕ) (plan : EngineeringPlan)
    (changedFiles : Dict Text Text) (dropPaths : List Text) (consumers : List (RepairMember A))
    (toolchainFailures : List Text) : Option (Option RepairOutcome × RuntimeSession W) :=
  let members := (changedFiles.items.map fun x =>
    RepairMember.tool (.edit (.write x.1 x.2))) ++ consumers
  match s.controller.authorizeRepair plan changedFiles with
  | .error e => (s.refusedOutcome plan e).map fun o => (some o, s)
  | .ok authorized =>
    let s := { s with controller := authorized }
    if plan.solver ≠ approvedSolver then
      some (some (.because .needsUserReview
        "Runtime repair attempted to change the user-approved solver.".toList), s)
    else if s.controller.policy.maxRuntimeRepairToolActions <
        members.length + (s.controller.engineeringEvents.length - start) then
      some (some (.because .blocked (s.uncoveredText members.length start)), s)
    else if t.nativeExecution && !toolchainFailures.isEmpty then
      some (some (.because .blocked (toolchainSummary ++ ' ' ::
          ['\n'].intercalate (toolchainFailures.map ("- ".toList ++ ·)))),
        s.record (failedEvent "native_toolchain_preflight".toList toolchainSummary))
    else
      match s.controller.commit t.machine changedFiles.items dropPaths with
      | (_, .error _) => none
      | (committed, .ok ()) =>
        dispatchMembers t approvedSolver start false members { s with controller := committed }

/-- `execute_runtime_repair_plan`. -/
def executeRuntimeRepairPlan (approvedSolver : Text) (start : ℕ) :
    CompiledRepair A → Option (Option RepairOutcome × RuntimeSession W)
  | .refused actionType reason => some (none, s.record (failedEvent actionType reason))
  | .rejected reason => some (some (.because .blocked reason), s)
  | .delta plan changedFiles dropPaths consumers toolchainFailures =>
    s.executeRepairDelta t approvedSolver start plan changedFiles dropPaths consumers
      toolchainFailures

/-! ### The loop over the turns -/

/-- A turn that dispatches one action of its own. -/
def dispatchAction (approvedSolver : Text) (action : RepairMember A) :
    Option (Option RepairOutcome × RuntimeSession W) :=
  match s.dispatchMember t approvedSolver action with
  | none => none
  | some (event, outcome, s') =>
    let s' := s'.record event
    match action with
    | .tool _ => some (s'.failedOutcome none, s')
    | _ => some (outcome, s')

/-- The action of a turn: the outcome it ends the repair with, if any. -/
def repairTurn (approvedSolver : Text) (start : ℕ) :
    RepairAction A R → Option (Option RepairOutcome × RuntimeSession W)
  | .repair r => s.executeRuntimeRepairPlan t approvedSolver start (t.compile s.world s.controller r)
  | .sequence members => dispatchMembers t approvedSolver start true members s
  | .retrySolver plan =>
    if s.actionsSpent start then some (some s.budgetOutcome, s)
    else s.dispatchAction t approvedSolver (.retrySolver plan)
  | .block needsUserInput reason =>
    if s.actionsSpent start then some (some s.budgetOutcome, s)
    else
      some (some (.because (if needsUserInput then .needsUserReview else .blocked) reason),
        s.record { actionType := "block".toList, success := true, summary := .other reason })
  | .tool tool =>
    if s.actionsSpent start then some (some s.budgetOutcome, s)
    else s.dispatchAction t approvedSolver (.tool tool)

/-- The outcome behind the last turn. -/
def stepsOutcome : RepairOutcome :=
  .because .blocked ("Runtime repair action budget exhausted (".toList ++
    (Nat.repr t.maxRuntimeRepairSteps).toList ++ ").".toList)

/-- The loop over the turns. -/
def repairLoop (approvedSolver : Text) (start : ℕ) :
    ℕ → RuntimeSession W → Option (RepairOutcome × RuntimeSession W)
  | 0, s => some (stepsOutcome t, s.closeRepair (stepsOutcome t))
  | steps + 1, s =>
    match t.generateTurn s.world s.controller with
    | none => none
    | some (action, world) =>
      match repairTurn t { s with world := world } approvedSolver start action with
      | none => none
      | some (some o, s') => some (o, s'.closeRepair o)
      | some (none, s') => repairLoop approvedSolver start steps s'

/-- What `repair_runtime` checks before it enters its state: the plan, or the outcome where it
refuses. -/
def checkRepair : RuntimeSession W × Except RepairOutcome EngineeringPlan :=
  match s.controller.engineeringPlan, s.controller.caseSeal with
  | some plan, some caseSeal =>
    let s := { s with repairReview := none }
    match s.controller.executionApproval with
    | none => (s, .error (.because .needsUserReview approvalMissingText))
    | some approval =>
      if !s.controller.solveApproved then
        (s, .error (.because .needsUserReview approvalMissingText))
      else
        match approval.checkPlan plan with
        | .error e => (s, .error { decision := .needsUserReview, reason := .approval e })
        | .ok () =>
          match s.controller.workspace.adoptAndVerify caseSeal plan with
          | (workspace, .error e) =>
            ({ s with controller := { s.controller with workspace := workspace } },
              .error { decision := .blocked, reason := .caseSeal e })
          | (workspace, .ok ()) =>
            ({ s with controller := { s.controller with workspace := workspace } }, .ok plan)
  | _, _ => (s, .error (.because .blocked "No approved engineering plan is available.".toList))

/-- `repair_runtime`. -/
def repairRuntime : Option (RepairOutcome × RuntimeSession W) :=
  match checkRepair { s with edits := [] } with
  | (s, .error o) => some (o, s.closeRepair o)
  | (s, .ok plan) =>
    repairLoop t plan.solver s.controller.engineeringEvents.length t.maxRuntimeRepairSteps
      (s.transition .runtimeRepair)

end RuntimeSession
end Engineering
end OpenFoamAgent
