/-
# The engineering controller

The fields of `EngineeringAgent` and `CFDState` that a dispatched case edit
reads or changes, and the two bookkeeping functions every edit goes through:
`_mesh_repair_status` counts the mesh repair cycles of the current round, and
`_invalidate_mesh_dependencies` withdraws the mesh evidence, and with it the
approval, of a scope whose mesh inputs changed.

`scope_mesh_digest` is an argument: a function of the case and of the registry
`mesh-dependencies.json`, which lies outside the case and which no edit writes.
-/
import OpenFoamAgent.Contracts.Approval
import OpenFoamAgent.Workspace.Mutations

namespace OpenFoamAgent
namespace Engineering

open Python Schemas Workspace Contracts

/-! ### Execution scopes -/

/-- `scope_key`. -/
def scopeKey (scope : ExecutionScope) : Text :=
  match scope.name with
  | none => "root".toList
  | some name => "region:".toList ++ name

/-- The scope of one region layout. An empty region is the root case. -/
def layoutScope (layout : RegionCaseLayout) : ExecutionScope where
  name := if layout.region = [] then none else some layout.region
  solverModule := layout.solverModule

/-- `execution_scopes` of a plan. -/
def executionScopes (plan : EngineeringPlan) : List ExecutionScope :=
  match plan.execution with
  | some execution => if execution.scopes = [] then [{}] else execution.scopes
  | none =>
    if plan.regionLayouts = [] then
      [{ solverModule := some plan.solver, solverProviderId := some plan.solverProviderId }]
    else plan.regionLayouts.map layoutScope

/-! ### Events -/

/-- The exceptions the dispatcher turns into a failed event. -/
inductive DispatchError where
  | case (e : CaseError)
  /-- An exception of `scope_mesh_digest`. -/
  | meshDigest
  /-- `Runtime repair lacks a durable execution approval.` -/
  | approvalMissing
  /-- `This repair changes more than numerical settings; explicit user review is required.` -/
  | reviewRequired
  deriving DecidableEq

/-- The exceptions that leave the body of a dispatched edit. -/
inductive Raised where
  | rejected (e : DispatchError)
  /-- An exception of a class the dispatcher does not catch: the `IndexError` of `parts[0]`. -/
  | uncaught
  deriving DecidableEq

/-- The summary of an event. -/
inductive EventSummary where
  /-- `Wrote {path}.` -/
  | wrote (path : Text)
  /-- `Patched {path}.` -/
  | patched (path : Text)
  /-- `Deleted {path}.` -/
  | deleted (path : Text)
  /-- `postprocessConfig/ is reserved for the post-processing phase after a successful solve.` -/
  | postprocessReserved
  /-- `Mesh repair cycle budget exhausted ({limit}); case {edit} was not applied.` -/
  | meshRepairBudget (limit : ℕ) (edit : Text)
  /-- `Tool action rejected: …` -/
  | rejected (e : DispatchError)
  /-- `Engineering deterministic action budget exhausted ({limit}); execution plan stopped.` -/
  | actionBudget (limit : ℕ)
  | other (text : Text)
  deriving DecidableEq

/-- `EngineeringEvent`. -/
structure EngineeringEvent where
  actionType : Text
  success : Bool
  summary : EventSummary
  artifactSha256 : Option Digest := none
  meshCommandExecuted : Bool := false
  deriving DecidableEq

/-- The action types `_mesh_repair_status` counts as edits. -/
def editTypes : List Text :=
  ["write_case_file".toList, "patch_case_file".toList, "delete_case_file".toList]

/-! ### The state -/

/-- `EngineeringPolicy`. -/
structure EngineeringPolicy where
  maxMeshRepairCycles : ℕ := 6
  maxToolActions : ℕ := 160
  maxRuntimeRepairToolActions : ℕ := 48

/-- `scope_mesh_digest`: the digest of the mesh inputs of a scope. -/
abbrev MeshDigest := Sha256 Document

/-- What an edit depends on besides the controller's state. -/
structure Machine where
  host : Host
  scopeMeshDigest : CaseWorkspace → ExecutionScope → Except Raised MeshDigest

/-- The state of the controller: the fields of `EngineeringAgent`, then those of `CFDState`. -/
structure Controller where
  policy : EngineeringPolicy := {}
  workspace : CaseWorkspace
  precommittedFiles : Dict Text Digest := ∅
  precommittedDrops : OrderedSet Text := .empty
  presolveCaseManifest : Option (Sha256 (List CaseFileSeal)) := none
  presolveRequiredCaseFiles : Option (List Text) := none
  pendingExecutionPlan : Option EngineeringPlan := none
  repairReviewRequired : Option DispatchError := none
  engineeringPlan : Option EngineeringPlan := none
  engineeringEvents : List EngineeringEvent := []
  engineeringRoundStartIndex : ℕ := 0
  meshManifestByScope : Dict Text MeshDigest := ∅
  caseSeal : Option CaseSeal := none
  solveApproved : Bool := false
  executionApproval : Option ExecutionApproval := none

namespace Controller

variable (m : Machine) (c : Controller)

/-- `state.engineering_events.append(event)`. -/
def record (event : EngineeringEvent) : Controller :=
  { c with engineeringEvents := c.engineeringEvents ++ [event] }

/-- `_current_round_events`. -/
def currentRoundEvents : List EngineeringEvent :=
  c.engineeringEvents.drop (min c.engineeringRoundStartIndex c.engineeringEvents.length)

theorem currentRoundEvents_eq_drop :
    c.currentRoundEvents = c.engineeringEvents.drop c.engineeringRoundStartIndex := by
  unfold currentRoundEvents
  rcases le_total c.engineeringRoundStartIndex c.engineeringEvents.length with h | h
  · rw [min_eq_left h]
  · rw [min_eq_right h, List.drop_length, List.drop_of_length_le h]

/-- An event of a later round is not counted. -/
theorem currentRoundEvents_record (event : EngineeringEvent) :
    (c.record event).currentRoundEvents = c.currentRoundEvents ∨
      (c.record event).currentRoundEvents = c.currentRoundEvents ++ [event] := by
  rw [currentRoundEvents_eq_drop, currentRoundEvents_eq_drop]
  show (c.engineeringEvents ++ [event]).drop c.engineeringRoundStartIndex = _ ∨
    (c.engineeringEvents ++ [event]).drop c.engineeringRoundStartIndex = _
  rw [List.drop_append]
  cases c.engineeringRoundStartIndex - c.engineeringEvents.length with
  | zero => exact .inr rfl
  | succ n => exact .inl (by rw [List.drop_succ_cons, List.drop_nil, List.append_nil])

/-- `_tool_action_count`. -/
def toolActionCount : ℕ := c.currentRoundEvents.length

/-- `_active_execution_plan`. -/
def activeExecutionPlan : Option EngineeringPlan := c.pendingExecutionPlan.or c.engineeringPlan

/-! ### Mesh repair cycles -/

/-- The three variables of `_mesh_repair_status`. -/
structure MeshRepairStatus where
  cycles : ℕ := 0
  failurePending : Bool := false
  currentCycleStarted : Bool := false

/-- One turn of the loop of `_mesh_repair_status`. -/
def MeshRepairStatus.step (s : MeshRepairStatus) (event : EngineeringEvent) : MeshRepairStatus :=
  if event.meshCommandExecuted then
    { s with failurePending := !event.success, currentCycleStarted := false }
  else if s.failurePending ∧ event.success ∧ event.actionType ∈ editTypes ∧
      ¬ s.currentCycleStarted then
    { s with cycles := s.cycles + 1, currentCycleStarted := true }
  else s

/-- `_mesh_repair_status`. -/
def meshRepairStatus : MeshRepairStatus := c.currentRoundEvents.foldl MeshRepairStatus.step {}

/-- A failed edit does not count. -/
theorem meshRepairStatus_record {event : EngineeringEvent}
    (hmesh : event.meshCommandExecuted = false) (hfailed : event.success = false) :
    (c.record event).meshRepairStatus = c.meshRepairStatus := by
  unfold meshRepairStatus
  rcases c.currentRoundEvents_record event with h | h
  · rw [h]
  · rw [h, List.foldl_append]
    simp [MeshRepairStatus.step, hmesh, hfailed]

/-- An edit would begin a mesh repair cycle beyond the budget. -/
def MeshBudgetExhausted : Prop :=
  c.meshRepairStatus.failurePending ∧ ¬ c.meshRepairStatus.currentCycleStarted ∧
    c.policy.maxMeshRepairCycles ≤ c.meshRepairStatus.cycles

instance : Decidable c.MeshBudgetExhausted :=
  inferInstanceAs (Decidable (_ ∧ _ ∧ _))

/-! ### Mesh evidence -/

/-- The recorded scopes among `keys` that the plan no longer has or whose mesh inputs changed. -/
def staleScopes (w : CaseWorkspace) (scopes : Dict Text ExecutionScope) :
    List (Text × MeshDigest) → Except Raised (List Text)
  | [] => .ok []
  | (key, old) :: recorded =>
    match scopes.get key with
    | none => (staleScopes w scopes recorded).map (key :: ·)
    | some scope =>
      match m.scopeMeshDigest w scope with
      | .error e => .error e
      | .ok digest =>
        if digest = old then staleScopes w scopes recorded
        else (staleScopes w scopes recorded).map (key :: ·)

/-- The effect of stale mesh evidence: the evidence, the seal and the approval go. -/
def dropMeshEvidence (stale : List Text) : Controller :=
  { c with
    meshManifestByScope := stale.foldl (fun d key => d.erase key) c.meshManifestByScope
    caseSeal := none
    solveApproved := false
    executionApproval := none
    presolveCaseManifest := none }

/-- The recorded scopes that are stale under the active plan. -/
def staleMesh : Except Raised (List Text) :=
  match c.activeExecutionPlan with
  | none => .ok []
  | some plan =>
    staleScopes m c.workspace
      (.ofItems ((executionScopes plan).map fun scope => (scopeKey scope, scope)))
      c.meshManifestByScope.items

/-- `_invalidate_mesh_dependencies`. -/
def invalidateMeshDependencies : Except Raised Controller :=
  match c.staleMesh m with
  | .error e => .error e
  | .ok [] => .ok c
  | .ok stale => .ok (c.dropMeshEvidence stale)

end Controller
end Engineering
end OpenFoamAgent
