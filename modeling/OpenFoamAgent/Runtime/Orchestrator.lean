/-
# The runtime orchestrator

`RuntimeOrchestrator.run` of `runtime/orchestrator.py`: the gates in front of the solver, and the
loop over its attempts. A failed attempt goes to `repair_runtime`, and only an outcome that asks for
a retry leads to another one.

The log of a process is read by `parse_runtime_stream`. What the process does, what is compiled into
the contract and what is found among the outputs are arguments. Every start of the solver is kept
with the controller that made it.
-/
import OpenFoamAgent.Engineering.RuntimeRepair
import OpenFoamAgent.Runtime.Parsers

namespace OpenFoamAgent

namespace Workspace

/-- The exception is a `WorkspaceSafetyError`. A missing file is a `FileNotFoundError`, a path that
is too long for its field a `ValidationError`. -/
def SealError.isSafety : SealError → Bool
  | .check (.missing _) | .pathTooLong _ => false
  | _ => true

end Workspace

namespace Runtime

open Python Schemas Workspace Contracts Workflow Engineering

/-- `SimulationAttempt`. -/
structure SimulationAttempt where
  attempt : ℕ
  result : SimulationResult
  repairRequested : Bool := false
  deriving DecidableEq

/-- `RuntimeReport`. -/
structure RuntimeReport where
  success : Bool
  attempts : List SimulationAttempt
  finalResult : SimulationResult
  deriving DecidableEq

/-- `RuntimeReport.validate_report`, and the bound of `SimulationAttempt.attempt`. -/
structure RuntimeReport.Valid (report : RuntimeReport) : Prop where
  numbered : report.attempts.map (·.attempt) = List.range' 1 report.attempts.length
  bounded : report.attempts.length ≤ 13
  failedBefore : ∀ a ∈ report.attempts.dropLast, a.result.success = false
  final : report.attempts.getLast?.map (·.result) = some report.finalResult
  agrees : report.success = report.finalResult.success

instance (report : RuntimeReport) : Decidable report.Valid :=
  decidable_of_iff (report.attempts.map (·.attempt) = List.range' 1 report.attempts.length ∧
      report.attempts.length ≤ 13 ∧
      (∀ a ∈ report.attempts.dropLast, a.result.success = false) ∧
      report.attempts.getLast?.map (·.result) = some report.finalResult ∧
      report.success = report.finalResult.success)
    ⟨fun ⟨h₁, h₂, h₃, h₄, h₅⟩ => ⟨h₁, h₂, h₃, h₄, h₅⟩,
      fun h => ⟨h.numbered, h.bounded, h.failedBefore, h.final, h.agrees⟩⟩

/-- What the tools say of a process that has ended: `log` is what is parsed. -/
structure NativeRun where
  returnCode : ℤ
  terminationReason : Text
  log : Bytes
  /-- `log_sha256`, where the log was read from the disk. -/
  diskSha256 : Option Digest := none
  deriving DecidableEq

/-- The solver and everything around it that the orchestrator asks. -/
structure SolverTools (A R W : Type) where
  repair : RepairTools A R W
  maxAttempts : ℕ
  bounded : 1 ≤ maxAttempts ∧ maxAttempts ≤ 13
  runtimeDriver : EngineeringPlan → Text
  /-- `state.case_dir is not None` -/
  hasCase : W → Bool
  /-- `assert_confirmed_intake` -/
  confirmedIntake : W → Bool
  /-- `compile_runtime_contract`, where it returns. -/
  compileContract : EngineeringPlan → CaseWorkspace → Option RuntimeContract
  /-- The snapshot of the outputs, the decomposition and the process, where no policy blocks it;
  with the case they leave. -/
  launch : W → Controller → RuntimeContract → ℕ → Option NativeRun × CaseWorkspace × W
  /-- `reconstruct_parallel` and `verify_result_outputs`: the outputs are verified; with the case
  they leave. -/
  verifyOutputs : W → Controller → RuntimeContract → SimulationResult → Bool × CaseWorkspace × W
  /-- `classify_native_validation`: the failure says nothing about the case. -/
  inconclusive : NativeRun → Bool
  inconclusiveEvent : NativeRun → ℕ → EngineeringEvent

/-- A start of the solver. -/
structure Start where
  controller : Controller
  contract : RuntimeContract
  /-- The process, unless a policy blocked it. -/
  run : Option NativeRun

/-- What a run of the orchestrator leaves. -/
structure Orchestration (W : Type) where
  session : RuntimeSession W
  simulation : Option SimulationResult := none
  simulationAttempts : ℕ := 0
  runtimeReport : Option RuntimeReport := none
  /-- The starts of this run. -/
  starts : List Start := []

/-- The exceptions of a run. -/
inductive OrchestrationFault where
  /-- Of the parser, of a repair, of a state without plan, seal or approval, or of a seal whose file
  is gone. -/
  | escaped
  /-- A `ValidationError` of `RuntimeReport`. -/
  | invalidReport (report : RuntimeReport)
  /-- `Bounded runtime loop exited unexpectedly.` -/
  | loopExited
  deriving DecidableEq

/-- What leaves a run, with the starts before it. -/
structure OrchestrationError where
  fault : OrchestrationFault
  starts : List Start

namespace Orchestration

variable {A R W : Type} (t : SolverTools A R W) (r : Orchestration W)

/-- The case and the rest of the world behind a process. -/
def leave (left : CaseWorkspace × W) : Orchestration W :=
  { r with session := { r.session with
      controller := { r.session.controller with workspace := left.1 }
      world := left.2 } }

/-- `state.transition`. -/
def transition (newState : State) : Orchestration W :=
  { r with session := r.session.transition newState }

/-- `state.solve_approved = False` -/
def revoke : Orchestration W :=
  { r with session := { r.session with
      controller := { r.session.controller with solveApproved := false } } }

/-- An exception. -/
def raise {α : Type} (fault : OrchestrationFault) : Except OrchestrationError α :=
  .error ⟨fault, r.starts⟩

/-- `state.runtime_report = RuntimeReport(…)`. -/
def file (success : Bool) (attempts : List SimulationAttempt) (result : SimulationResult) :
    Except OrchestrationError (Orchestration W) :=
  let report : RuntimeReport := ⟨success, attempts, result⟩
  if report.Valid then .ok { r with runtimeReport := some report }
  else r.raise (.invalidReport report)

/-- The result of a process: what its log says, and whether the outputs were found. -/
def judge (contract : RuntimeContract) (driver : Text) (run : NativeRun) :
    Except OrchestrationError (SimulationResult × Orchestration W) :=
  match parseRuntimeStream (.runtime contract) run.returnCode driver run.terminationReason
    run.log with
  | .error _ => r.raise .escaped
  | .ok parsed =>
    -- `Native disk log hash differs from the captured stream.`
    let result := if run.diskSha256.all (· = parsed.logSha256) then parsed
      else { parsed with success := false, completed := false }
    if result.success then
      let verified := t.verifyOutputs r.session.world r.session.controller contract result
      .ok ({ result with success := verified.1 }, r.leave verified.2)
    else .ok (result, r)

/-- One start of the solver: the gates in front of it, and the process. `none` is a gate that ends
the run. -/
def startSolver (contract : RuntimeContract) (number : ℕ) :
    Except OrchestrationError (Orchestration W × Option NativeRun) :=
  let c := r.session.controller
  match c.engineeringPlan, c.caseSeal with
  | some plan, some caseSeal =>
    match c.workspace.verifySeal caseSeal plan with
    | .error e => if e.isSafety then .ok (r.transition .failed, none) else r.raise .escaped
    | .ok () =>
      match c.executionApproval with
      | none => r.raise .escaped
      | some approval =>
        match approval.checkPlan plan, approval.checkRepairFiles caseSeal with
        | .ok (), .ok () =>
          let launched := t.launch r.session.world c contract number
          let r' := { r.leave launched.2 with starts := r.starts ++ [⟨c, contract, launched.1⟩] }
          match launched.1 with
          | none => .ok (r'.transition .engineeringBlocked, none)
          | some run => .ok (r', some run)
        | _, _ => .ok (r.transition .engineeringBlocked, none)
  | _, _ => r.raise .escaped

/-- The request of a repair is noted at the last attempt. -/
def noteRepair (attempts : List SimulationAttempt) (requested : Bool) : List SimulationAttempt :=
  attempts.dropLast ++ attempts.getLast?.toList.map fun a => { a with repairRequested := requested }

/-- What follows a failed attempt whose failure is one of the case: the state of the run, and the
attempts if there is a next one. -/
def repairAttempt (attempts : List SimulationAttempt) (result : SimulationResult) :
    Except OrchestrationError (Orchestration W × Option (List SimulationAttempt)) :=
  match r.session.repairRuntime t.repair with
  | none => r.raise .escaped
  | some (outcome, session) =>
    let attempts := noteRepair attempts (outcome.decision == .retrySolver)
    let r := { r with session := session }
    if outcome.decision ≠ .retrySolver then do
      let r ← r.file false attempts result
      if session.currentState = .runtimeRepair then
        return (r.revoke.transition .engineeringBlocked, none)
      return (r, none)
    else if session.currentState ≠ .simulation then do
      let r ← r.file false attempts result
      return (r.revoke.transition .engineeringBlocked, none)
    else .ok (r, some attempts)

/-- What follows the result of an attempt. -/
def settleAttempt (number : ℕ) (attempts : List SimulationAttempt) (run : NativeRun)
    (result : SimulationResult) :
    Except OrchestrationError (Orchestration W × Option (List SimulationAttempt)) :=
  if result.success then do
    let r ← r.file true attempts result
    return (r.transition .executionDone, none)
  else if result.processSuccess then do
    let r ← r.file false attempts result
    return (r.revoke.transition .resultReviewRequired, none)
  else if t.inconclusive run then do
    let r := { r with session := r.session.record (t.inconclusiveEvent run number) }
    let r ← r.file false attempts result
    return (r.revoke.transition .engineeringBlocked, none)
  else if t.maxAttempts ≤ number then do
    let r ← r.file false attempts result
    return (r.transition .engineeringBlocked, none)
  else r.repairAttempt t attempts result

/-- The loop over the attempts. -/
def attemptLoop (contract : RuntimeContract) (driver : Text) :
    ℕ → ℕ → List SimulationAttempt → Orchestration W → Except OrchestrationError (Orchestration W)
  | 0, _, _, r => r.raise .loopExited
  | remaining + 1, number, attempts, r => do
    match ← r.startSolver t contract number with
    | (r, none) => return r
    | (r, some run) =>
      let (result, r) ← r.judge t contract driver run
      let attempts := attempts ++ [{ attempt := number, result := result }]
      let r := { r with simulation := some result, simulationAttempts := number }
      match ← r.settleAttempt t number attempts run result with
      | (r, none) => return r
      | (r, some attempts) => attemptLoop contract driver remaining (number + 1) attempts r

/-- `RuntimeOrchestrator.run`. -/
def run : Except OrchestrationError (Orchestration W) :=
  let r := { r with starts := [] }
  let c := r.session.controller
  if !c.solveApproved then .ok (r.transition .failed)
  else
    match c.engineeringPlan, c.caseSeal, t.hasCase r.session.world with
    | some plan, some caseSeal, true =>
      match c.workspace.adoptAndVerify caseSeal plan with
      | (workspace, .error e) =>
        let r := { r with session := { r.session with controller := { c with workspace } } }
        if e.isSafety then .ok (r.transition .failed) else r.raise .escaped
      | (workspace, .ok ()) =>
        let r := { r with session := { r.session with controller := { c with workspace } } }
        match c.executionApproval with
        | none => .ok (r.transition .failed)
        | some approval =>
          match t.confirmedIntake r.session.world, approval.checkPlan plan,
              approval.checkRepairFiles caseSeal, t.compileContract plan workspace with
          | true, .ok (), .ok (), some contract =>
            attemptLoop t contract (t.runtimeDriver plan) t.maxAttempts 1 [] r
          | _, _, _, _ => .ok (r.transition .engineeringReviewRequired)
    | _, _, _ => .ok (r.transition .failed)

end Orchestration
end Runtime
end OpenFoamAgent
