/-
# Executed deltas

The part of `execute_case_plan`, `execute_prepare_repair_plan`,
`execute_strategy_revision` and `execute_runtime_repair_plan` that puts a delta
into the case: the gates before the commit, the transaction, the registry of
what it wrote and dropped, and the loop that dispatches one audit action for
each file.

The actions compiled behind the edits (validations, native commands, the
terminal action) only count against the budget here: they are dispatched when
every edit has succeeded.
-/
import OpenFoamAgent.Engineering.Dispatch

namespace OpenFoamAgent
namespace Engineering

open Python Schemas Workspace Contracts

/-- A compiled delta. -/
structure Delta where
  changedFiles : Dict Text Text
  dropPaths : List Text := []
  /-- The number of actions behind the edits. -/
  consumers : ℕ := 1
  /-- The result of the native toolchain preflight. -/
  toolchainReady : Bool := true

namespace Delta

variable (delta : Delta)

/-- The write actions of a delta. -/
def writes : List CaseAction := delta.changedFiles.items.map fun c => .write c.1 c.2

/-- The delete actions of a delta. -/
def deletes : List CaseAction := delta.dropPaths.map .delete

end Delta

/-- The two action budgets. -/
inductive Budget where
  | toolActions
  | runtimeRepairActions (runtimeEventStart : ℕ)
  deriving DecidableEq

namespace Budget

/-- The events that count. -/
def spent : Budget → Controller → ℕ
  | toolActions, c => c.toolActionCount
  | runtimeRepairActions _, c => c.engineeringEvents.length

/-- The number of counted events at which the budget is exhausted. -/
def allowance : Budget → Controller → ℕ
  | toolActions, c => c.policy.maxToolActions
  | runtimeRepairActions start, c => start + c.policy.maxRuntimeRepairToolActions

end Budget

/-- What the four executors differ in. -/
structure Executor where
  phase : Phase
  budget : Budget
  /-- The budget's exhaustion inside the loop is recorded as a failed event. -/
  recordsExhaustion : Bool := false

/-- How the edits of a delta ended. -/
inductive Report where
  /-- The executor returned before the commit. -/
  | gated
  /-- `commit_text_transaction` raised. -/
  | notCommitted (e : CaseError)
  /-- The action budget ran out in the loop. -/
  | exhausted
  /-- An exception left the dispatcher. -/
  | raised
  /-- An edit ended in a failed event. -/
  | failed (event : EngineeringEvent)
  /-- Every edit was reported as done. -/
  | reported
  deriving DecidableEq

namespace Controller

variable (m : Machine) (c : Controller)

/-- The controller after a commit: `_precommitted_files.update(committed)` and
`_precommitted_drops.update(drop_paths)`. -/
def register (workspace : CaseWorkspace) (committed : List (Text × Digest))
    (dropPaths : List Text) : Controller :=
  { c with
    workspace
    precommittedFiles := c.precommittedFiles.update committed
    precommittedDrops := dropPaths.foldl .add c.precommittedDrops }

/-- The transaction of a delta, and the registry after it. -/
def commit (changes : List (Text × Text)) (dropPaths : List Text) :
    Controller × Except CaseError Unit :=
  match c.workspace.commitTextTransaction m.host changes dropPaths with
  | (workspace, .error e) => ({ c with workspace }, .error e)
  | (workspace, .ok committed) => (c.register workspace committed dropPaths, .ok ())

/-- The failed event `execute_case_plan` appends when the budget runs out in its loop. -/
def recordExhaustion (ex : Executor) (a : CaseAction) : Controller :=
  if ex.recordsExhaustion then c.record (a.failed (.actionBudget c.policy.maxToolActions)) else c

/-- The loop over the compiled edits. -/
def dispatchEdits (ex : Executor) (c : Controller) : List CaseAction → Controller × Report
  | [] => (c, .reported)
  | a :: as =>
    if ex.budget.allowance c ≤ ex.budget.spent c then (c.recordExhaustion ex a, .exhausted)
    else
      match c.dispatch m ex.phase a with
      | (c', none) => (c', .raised)
      | (c', some event) =>
        if event.success then dispatchEdits ex (c'.record event) as
        else (c'.record event, .failed event)

/-- The common part of the executors. -/
def execute (ex : Executor) (delta : Delta) (edits : List CaseAction) : Controller × Report :=
  if ex.budget.allowance c < ex.budget.spent c + (edits.length + delta.consumers) then (c, .gated)
  else if !delta.toolchainReady then (c, .gated)
  else
    match c.commit m delta.changedFiles.items delta.dropPaths with
    | (c', .error e) => (c', .notCommitted e)
    | (c', .ok ()) => c'.dispatchEdits m ex edits

/-- `execute_case_plan`. Its toolchain preflight precedes the other steps. -/
def executeCasePlan (plan : EngineeringPlan) (delta : Delta) : Controller × Report :=
  if !delta.toolchainReady then ({ c with pendingExecutionPlan := none }, .gated)
  else
    { c with pendingExecutionPlan := some plan }.execute m ⟨.prepare, .toolActions, true⟩
      { delta with dropPaths := [] } delta.writes

/-- `execute_prepare_repair_plan`. -/
def executePrepareRepairPlan (delta : Delta) : Controller × Report :=
  c.execute m ⟨.prepare, .toolActions, false⟩ { delta with dropPaths := [] } delta.writes

/-- `execute_strategy_revision`, for a case that was committed before. -/
def executeStrategyRevision (delta : Delta) : Controller × Report :=
  c.execute m ⟨.prepare, .toolActions, false⟩ delta (delta.deletes ++ delta.writes)

/-- The authorization of a runtime repair, when there is an approval: `check_plan`, and
`check_repair_delta`, which updates the approval. -/
def authorizeRepair (plan : EngineeringPlan) (changedFiles : Dict Text Text) :
    Except ApprovalError Controller :=
  match c.executionApproval with
  | none => .ok c
  | some approval =>
    match approval.checkPlan plan with
    | .error e => .error e
    | .ok () =>
      match approval.checkRepairDelta c.workspace changedFiles with
      | .error e => .error e
      | .ok approval' => .ok { c with executionApproval := some approval' }

/-- `execute_runtime_repair_plan`. -/
def executeRuntimeRepairPlan (approvedSolver : Text) (runtimeEventStart : ℕ)
    (plan : EngineeringPlan) (delta : Delta) : Controller × Report :=
  match c.authorizeRepair plan delta.changedFiles with
  | .error _ => (c, .gated)
  | .ok c' =>
    if plan.solver ≠ approvedSolver then (c', .gated)
    else
      c'.execute m ⟨.runtimeRepair, .runtimeRepairActions runtimeEventStart, false⟩
        { delta with dropPaths := [] } delta.writes

end Controller
end Engineering
end OpenFoamAgent
