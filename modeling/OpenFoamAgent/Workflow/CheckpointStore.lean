/-
# Checkpoints

`CheckpointStore.save` and `CheckpointStore.load` of `workflow/checkpoint.py`.

A saved file is the envelope of a payload; its digest stands for the payload. The
state in it is a JSON document: what the models of the state, of an event and of
a snapshot field make of a document is an argument, and so is what the machine
answers about the tools, about the files beside the case and about processes.
`load` changes the agent as it goes; here it returns the agent that it leaves
behind when it returns a state.
-/
import OpenFoamAgent.Contracts.Approval
import OpenFoamAgent.Library.Traversal
import OpenFoamAgent.Runtime.ExecutionPolicy
import OpenFoamAgent.Runtime.ProcessLedger
import OpenFoamAgent.Workflow.State

namespace OpenFoamAgent
namespace Workflow

open Python Schemas Workspace Contracts
open OpenFoamAgent.Runtime (ProcessRow ParallelExecution)

/-! ### States -/

deriving instance DecidableEq for ExecutionApproval

/-- A `pending_action`; an empty one is none. -/
structure PendingAction where
  status : Option Text := none
  kind : Option Text := none
  event : Option Document := none
  deriving DecidableEq

namespace PendingAction

/-- `pending_action.get("status") != "completed"` -/
def uncertain (a : PendingAction) : Bool := a.status != some "completed".toList

/-- `pending_action.get("kind") == "runtime"` -/
def isRuntime (a : PendingAction) : Bool := a.kind == some "runtime".toList

end PendingAction

/-- `_SNAPSHOT_FIELDS`. -/
inductive SnapshotField where
  | checkmeshMeshManifest | presolveCaseManifest | presolveRequiredCaseFiles
  | pendingExecutionPlan | draftDesignPlan | draftAuthoringBrief | authoringTaskQueue
  | pendingCandidateExecution | pendingCandidateFailedPaths | pendingCandidateFailureDiagnostic
  | structuredBlockMesh | phasePromptCounts | phaseContextSnapshots | evidenceGapLedger
  | retrievalCycles | evidenceRetrievalDisabled | activeTransaction
  deriving DecidableEq

/-- The fields in the order of `_SNAPSHOT_FIELDS`. -/
def snapshotFields : List SnapshotField :=
  [.checkmeshMeshManifest, .presolveCaseManifest, .presolveRequiredCaseFiles,
    .pendingExecutionPlan, .draftDesignPlan, .draftAuthoringBrief, .authoringTaskQueue,
    .pendingCandidateExecution, .pendingCandidateFailedPaths, .pendingCandidateFailureDiagnostic,
    .structuredBlockMesh, .phasePromptCounts, .phaseContextSnapshots, .evidenceGapLedger,
    .retrievalCycles, .evidenceRetrievalDisabled, .activeTransaction]

/-- `CFDState`, the fields that the two functions read or change; `rest` is all the others. -/
structure CFDState where
  intake : Option Document := none
  intakeConfirmed : Bool := false
  intakeDigest : Option (Sha256 Document) := none
  engineeringPlan : Option EngineeringPlan := none
  engineeringEvents : List Document := []
  caseSeal : Option CaseSeal := none
  solveApproved : Bool := false
  executionApproval : Option ExecutionApproval := none
  engineeringCheckpoint : SnapshotField → Option Document := fun _ => none
  pendingAction : Option PendingAction := none
  nativeProcessRecords : List ProcessRow := []
  currentState : State := .init
  history : List HistoryEntry := []
  rest : Document := []

namespace CFDState

/-- `transition`. -/
def transition (s : CFDState) (newState : State) (note : Text) : CFDState :=
  { s with
    history := s.history ++ [⟨s.currentState, newState, note⟩]
    currentState := newState }

/-- `assert_confirmed_intake` passes. -/
def confirmedIntake (s : CFDState) : Bool :=
  match s.intake, s.intakeDigest with
  | some intake, some digest => s.intakeConfirmed && decide (digest = ⟨intake⟩)
  | _, _ => false

end CFDState

/-! ### Files -/

/-- The payload of a checkpoint. -/
structure Payload where
  schemaVersion : ℤ
  reason : Text
  savedUnix : Document
  workspace : Text
  environmentSha256 : Sha256 Document
  inputs : List CaseFileSeal
  meshGraphSha256 : Option Digest
  state : Document
  deriving DecidableEq

/-- What stands at `checkpoint.json`. -/
inductive CheckpointFile where
  /-- No regular file. -/
  | irregular
  | oversized
  /-- No JSON object, or one whose payload lacks a field. -/
  | malformed
  | envelope (payload : Payload) (sha256 : Sha256 Payload)

/-- The exceptions of `load`. -/
inductive CheckpointError where
  /-- `A regular checkpoint.json is required.` -/
  | irregular
  /-- `Checkpoint exceeds the bounded state size limit.` -/
  | oversized
  | malformed
  /-- `Checkpoint checksum mismatch.` -/
  | checksum
  /-- `Unsupported checkpoint version; implicit migration is not allowed.` -/
  | version
  /-- `Checkpoint relocation requires an explicit fork; paths will not be guessed.` -/
  | relocated
  /-- `Native environment changed; evidence must be revalidated before resume.` -/
  | environment
  /-- `Mesh dependency graph changed since checkpoint.` -/
  | meshGraph
  /-- A `ValidationError` of the state. -/
  | invalidState
  /-- An exception of `assert_confirmed_intake`. -/
  | intake
  /-- An exception of `execution_file_seals`. -/
  | seals (e : SealError)
  /-- `Case inputs changed since the checkpoint; no action was replayed.` -/
  | inputs
  /-- `Interrupted multi-action transaction needs explicit reconciliation; no automatic replay.` -/
  | transaction
  /-- `Interrupted restart preparation journal exists; preserve and reconcile manually.` -/
  | restartJournal
  /-- `An action has uncertain completion; partial work is preserved, not replayed.` -/
  | uncertainAction
  /-- `Explicit process reconciliation is restricted to parallel restart.` -/
  | notParallel
  /-- The cgroup of a row is untrusted or still holds descendants. -/
  | cgroup
  /-- `Missing native PID: completion remains uncertain; no replay is allowed.` -/
  | missingPid
  /-- The process or its group exists, or cannot be proved gone. -/
  | pidPresent
  | ledgerUnwritable
  /-- `A recorded native process may be in flight; manual reconciliation required. …` -/
  | inFlight
  /-- `Process ledger advanced beyond the checkpoint; no process was replayed.` -/
  | ledgerAdvanced
  /-- A `ValidationError` of the pending event. -/
  | invalidEvent
  /-- A `ValidationError` of a snapshot field. -/
  | invalidField (field : SnapshotField)
  /-- An exception of `verify_seal`. -/
  | caseSeal (e : SealError)
  deriving DecidableEq

/-! ### Agents and machines -/

/-- `EngineeringAgent`, as far as checkpoints go. -/
structure EngineeringAgent where
  /-- `workspace.root` -/
  root : Text
  workspace : CaseWorkspace
  /-- The records of the budget of a `SafeRunner`; other tools have none. -/
  runner : Option (List ProcessRow)
  fields : SnapshotField → Option Document
  resumePending : Bool := false

/-- What the machine answers, and what the models make of a document. -/
structure ControllerHost where
  /-- `environment_fingerprint`. -/
  environment : Sha256 Document
  /-- The digest of `mesh-dependencies.json`, where there is one. -/
  meshGraph : Option Digest
  /-- `parallel-restart-intent.json` exists. -/
  restartJournal : Bool
  /-- The cgroup of a row is trusted and gone or empty, or the row has none. -/
  cgroupVacant : ProcessRow → Bool
  /-- Neither the process nor its group exists, and asking for them is permitted. -/
  pidVacant : ℕ → Bool
  /-- `process-ledger.json` can be written. -/
  persists : Bool
  /-- The value of `time.time()`. -/
  clock : Document
  /-- `state.model_dump(mode="json")`, and `CFDState.model_validate`. -/
  dumpState : CFDState → Document
  validateState : Document → Option CFDState
  /-- `EngineeringEvent.model_validate`. -/
  validateEvent : Document → Option Document
  /-- `_jsonable` of a field, and what `load` makes of a saved one. -/
  jsonable : SnapshotField → Document → Document
  validateField : SnapshotField → Document → Option Document
  /-- The JSON value is truthy. -/
  truthy : Document → Bool
  /-- `execution.parallel.mode`. -/
  parallel : Document → ParallelExecution

/-! ### Saving -/

section
variable (host : ControllerHost)

/-- The state as `save` leaves it. -/
def capture (agent : EngineeringAgent) (s : CFDState) : CFDState :=
  { s with
    engineeringCheckpoint := fun field => (agent.fields field).map (host.jsonable field)
    nativeProcessRecords := agent.runner.getD s.nativeProcessRecords }

/-- `CheckpointStore.save`: the file and the state it leaves. -/
def save (agent : EngineeringAgent) (s : CFDState) (reason : Text) :
    Except SealError (CheckpointFile × CFDState) :=
  match agent.workspace.executionFileSeals with
  | .error e => .error e
  | .ok inputs =>
    let s' := capture host agent s
    let payload : Payload :=
      { schemaVersion := 1
        reason := reason
        savedUnix := host.clock
        workspace := agent.root
        environmentSha256 := host.environment
        inputs := inputs
        meshGraphSha256 := host.meshGraph
        state := host.dumpState s' }
    .ok (.envelope payload ⟨payload⟩, s')

/-! ### Loading -/

/-- The checks of the envelope. -/
def openCheckpoint (agent : EngineeringAgent) : CheckpointFile → Except CheckpointError Payload
  | .irregular => .error .irregular
  | .oversized => .error .oversized
  | .malformed => .error .malformed
  | .envelope payload sha256 =>
    if sha256 ≠ ⟨payload⟩ then .error .checksum
    else if payload.schemaVersion ≠ 1 then .error .version
    else if payload.workspace ≠ agent.root then .error .relocated
    else if payload.environmentSha256 ≠ host.environment then .error .environment
    else if host.meshGraph ≠ payload.meshGraphSha256 then .error .meshGraph
    else .ok payload

/-- The saved state. -/
def readState (payload : Payload) : Except CheckpointError CFDState :=
  match host.validateState payload.state with
  | none => .error .invalidState
  | some s => if s.intakeConfirmed && !s.confirmedIntake then .error .intake else .ok s

/-- The paths of an origin among the saved inputs. -/
def originPaths (inputs : List CaseFileSeal) (origin : FileOrigin) : OrderedSet Text :=
  .ofList ((inputs.filter (·.origin = origin)).map (·.path))

/-- The workspace with the origins of the checkpoint. -/
def restoreOrigins (w : CaseWorkspace) (inputs : List CaseFileSeal) : CaseWorkspace :=
  { w with
    authoredPaths := originPaths inputs .agent
    assetPaths := originPaths inputs .userAsset }

/-- The comparison of the case inputs with the saved ones. -/
def checkInputs (w : CaseWorkspace) (inputs : List CaseFileSeal) : Except CheckpointError Unit :=
  match w.executionFileSeals with
  | .error e => .error (.seals e)
  | .ok current => if current ≠ inputs then .error .inputs else .ok ()

/-- `snapshot.get("_active_transaction")` is truthy. -/
def transactionActive (s : CFDState) : Bool :=
  (s.engineeringCheckpoint .activeTransaction).any host.truthy

/-- The pending action of the state is uncertain, and it is not the run that is reconciled. -/
def actionRefused (reconcile : Bool) (s : CFDState) : Bool :=
  s.pendingAction.any fun a => a.uncertain && !(reconcile && a.isRuntime)

/-- The refusals because of work that was in flight. -/
def checkQuiet (reconcile : Bool) (s : CFDState) : Except CheckpointError Unit :=
  if transactionActive host s then .error .transaction
  else if host.restartJournal then .error .restartJournal
  else if actionRefused reconcile s then .error .uncertainAction
  else .ok ()

/-- The plan runs on several ranks of this machine. -/
def localMpi (s : CFDState) : Bool :=
  match s.engineeringPlan.bind (·.execution) with
  | some execution => (host.parallel execution.parallel).mode == .localMpi
  | none => false

/-- The reconciliation of one row. -/
def settleRow (row : ProcessRow) : Except CheckpointError ProcessRow :=
  if !row.status.inFlight then .ok row
  else if !host.cgroupVacant row then .error .cgroup
  else
    match row.pid with
    | none => .error .missingPid
    | some pid =>
      if host.pidVacant pid then .ok { row with status := .reconciled } else .error .pidPresent

/-- The reconciliation of the records. -/
def settleRecords (agent : EngineeringAgent) (s : CFDState) (records : List ProcessRow) :
    Except CheckpointError (List ProcessRow) :=
  if !localMpi host s then .error .notParallel
  else
    match records.mapM (settleRow host) with
    | .error e => .error e
    | .ok settled =>
      if agent.runner.isSome && !host.persists then .error .ledgerUnwritable else .ok settled

/-- The ledger behind the checks of the processes, and the state that holds it. -/
def checkRecords (reconcile : Bool) (agent : EngineeringAgent) (s : CFDState) :
    Except CheckpointError (List ProcessRow × CFDState) :=
  let records := agent.runner.getD s.nativeProcessRecords
  match (if reconcile then settleRecords host agent s records else .ok records) with
  | .error e => .error e
  | .ok records =>
    let s := if reconcile then { s with nativeProcessRecords := records } else s
    if records.any (·.status.inFlight) then .error .inFlight
    else if agent.runner.isSome && decide (records ≠ s.nativeProcessRecords) then
      .error .ledgerAdvanced
    else .ok (records, s)

/-- The event of a completed action is kept, and the action is not pending any more. -/
def settlePending (s : CFDState) : Except CheckpointError CFDState :=
  match s.pendingAction.bind (·.event) with
  | none => .ok { s with pendingAction := none }
  | some document =>
    match host.validateEvent document with
    | none => .error .invalidEvent
    | some event =>
      .ok { s with
        engineeringEvents :=
          if event ∈ s.engineeringEvents then s.engineeringEvents
          else s.engineeringEvents ++ [event]
        pendingAction := none }

/-- The loop over `_SNAPSHOT_FIELDS`. -/
def restoreFields (s : CFDState) :
    List SnapshotField → (SnapshotField → Option Document) →
      Except CheckpointError (SnapshotField → Option Document)
  | [], fields => .ok fields
  | field :: rest, fields =>
    match s.engineeringCheckpoint field with
    | none => restoreFields s rest fields
    | some document =>
      match host.validateField field document with
      | none => .error (.invalidField field)
      | some value => restoreFields s rest (Function.update fields field (some value))

/-- The verification of the stored seal. -/
def checkSeal (w : CaseWorkspace) (s : CFDState) : Except CheckpointError Unit :=
  match s.caseSeal, s.engineeringPlan with
  | some caseSeal, some plan =>
    match w.verifySeal caseSeal plan with
    | .error e => .error (.caseSeal e)
    | .ok () => .ok ()
  | _, _ => .ok ()

/-- The session starts anew: no approval is carried over. -/
def revokeApproval (s : CFDState) : CFDState :=
  let s := { s with solveApproved := false, executionApproval := none }
  if s.currentState = .simulation then
    s.transition .solveReady "Checkpoint restored; fresh /solve approval is required.".toList
  else if s.currentState = .runtimeRepair then
    s.transition .engineeringReviewRequired "Interrupted runtime repair needs review.".toList
  else s

/-- `CheckpointStore.load`. -/
def load (agent : EngineeringAgent) (file : CheckpointFile) (reconcile : Bool) :
    Except CheckpointError (EngineeringAgent × CFDState) := do
  let payload ← openCheckpoint host agent file
  let s ← readState host payload
  let w := restoreOrigins agent.workspace payload.inputs
  checkInputs w payload.inputs
  checkQuiet host reconcile s
  let (records, s') ← checkRecords host reconcile agent s
  let s'' ← settlePending host s'
  let fields ← restoreFields host s'' snapshotFields agent.fields
  checkSeal w s''
  .ok ({ agent with
    workspace := w
    runner := agent.runner.map fun _ => records
    fields := fields
    resumePending := true }, revokeApproval s'')

end

/-! ### What a load went through -/

section
variable {host : ControllerHost} {agent agent' : EngineeringAgent} {file : CheckpointFile}
  {reconcile : Bool} {s state : CFDState}

theorem openCheckpoint_eq_ok {payload : Payload}
    (h : openCheckpoint host agent file = .ok payload) :
    file = .envelope payload ⟨payload⟩ ∧ payload.schemaVersion = 1 ∧
      payload.workspace = agent.root ∧ payload.environmentSha256 = host.environment ∧
      host.meshGraph = payload.meshGraphSha256 := by
  cases file with
  | irregular | oversized | malformed => cases h
  | envelope payload' sha256 =>
    simp only [openCheckpoint] at h
    split_ifs at h with hsha hversion hroot henvironment hgraph
    cases h
    rw [not_not] at hsha hversion hroot henvironment hgraph
    exact ⟨congrArg _ hsha, hversion, hroot, henvironment, hgraph⟩

theorem readState_eq_ok {payload : Payload} (h : readState host payload = .ok s) :
    host.validateState payload.state = some s ∧ (s.intakeConfirmed → s.confirmedIntake) := by
  unfold readState at h
  split at h
  · cases h
  · rename_i s' hvalid
    split_ifs at h with hintake
    cases h
    exact ⟨hvalid, fun hc => by simpa [hc] using hintake⟩

theorem checkInputs_eq_ok {w : CaseWorkspace} {inputs : List CaseFileSeal} :
    checkInputs w inputs = .ok () ↔ w.executionFileSeals = .ok inputs := by
  unfold checkInputs
  cases w.executionFileSeals with
  | error e => exact iff_of_false nofun nofun
  | ok current =>
    dsimp only
    split_ifs with hne
    · exact iff_of_false nofun fun h => hne (Except.ok.inj h)
    · exact iff_of_true rfl (congrArg _ (not_not.1 hne))

theorem checkQuiet_eq_ok :
    checkQuiet host reconcile s = .ok () ↔
      transactionActive host s = false ∧ host.restartJournal = false ∧
        actionRefused reconcile s = false := by
  unfold checkQuiet
  split_ifs with htransaction hjournal hrefused
  · simp [htransaction]
  · simp [hjournal]
  · simp [hrefused]
  · simp [htransaction, hjournal, hrefused]

/-- A reconciliation leaves no row in flight, and every row that was had no process left. -/
theorem settleRow_eq_ok {row row' : ProcessRow} (h : settleRow host row = .ok row') :
    row'.status.inFlight = false ∧ (row.status.inFlight = true →
      host.cgroupVacant row = true ∧ ∃ pid, row.pid = some pid ∧ host.pidVacant pid = true) := by
  unfold settleRow at h
  split_ifs at h with hrow hcgroup
  · cases h
    have hidle : row.status.inFlight = false := by simpa using hrow
    exact ⟨hidle, fun hflight => absurd (hidle.symm.trans hflight) Bool.false_ne_true⟩
  · split at h
    · cases h
    · rename_i pid hpid
      split_ifs at h with hvacant
      cases h
      exact ⟨rfl, fun _ => ⟨by simpa using hcgroup, pid, hpid, hvacant⟩⟩

theorem settleRecords_eq_ok {records settled : List ProcessRow}
    (h : settleRecords host agent s records = .ok settled) :
    localMpi host s = true ∧ records.mapM (settleRow host) = .ok settled := by
  unfold settleRecords at h
  cases hsettled : records.mapM (settleRow host) with
  | error e =>
    rw [hsettled] at h
    split_ifs at h
  | ok settled' =>
    rw [hsettled] at h
    split_ifs at h with hmpi hpersists
    cases h
    exact ⟨by simpa using hmpi, rfl⟩

/-- What the checks of the processes leave. -/
theorem checkRecords_eq_ok {records : List ProcessRow}
    (h : checkRecords host reconcile agent s = .ok (records, state)) :
    state = { s with nativeProcessRecords := records } ∧
      (∀ row ∈ records, row.status.inFlight = false) ∧
      (reconcile = false → s.nativeProcessRecords = records) ∧
      (reconcile = true → settleRecords host agent s (agent.runner.getD s.nativeProcessRecords) =
        .ok records) := by
  unfold checkRecords at h
  cases reconcile with
  | false =>
    simp only [Bool.false_eq_true, if_false] at h
    split_ifs at h with hflight hadvanced
    cases h
    have hidle : ∀ row ∈ agent.runner.getD s.nativeProcessRecords, row.status.inFlight = false := by
      simpa using hflight
    have hsame : agent.runner.getD s.nativeProcessRecords = s.nativeProcessRecords := by
      cases hrunner : agent.runner with
      | none => rfl
      | some rows => simpa [hrunner] using hadvanced
    exact ⟨by rw [hsame], hidle, fun _ => hsame.symm, nofun⟩
  | true =>
    simp only [if_true] at h
    split at h
    · cases h
    · rename_i settled hsettled
      split_ifs at h with hflight
      cases h
      exact ⟨rfl, by simpa using hflight, nofun, fun _ => hsettled⟩

/-- What is left of a state behind its pending action. -/
theorem settlePending_eq_ok (h : settlePending host s = .ok state) :
    ∃ events, state = { s with engineeringEvents := events, pendingAction := none } := by
  unfold settlePending at h
  split at h
  · cases h
    exact ⟨_, rfl⟩
  · split at h
    · cases h
    · cases h
      exact ⟨_, rfl⟩

theorem checkSeal_eq_ok {w : CaseWorkspace} (h : checkSeal w s = .ok ()) {caseSeal : CaseSeal}
    {plan : EngineeringPlan} (hseal : s.caseSeal = some caseSeal)
    (hplan : s.engineeringPlan = some plan) :
    w.verifySeal caseSeal plan = .ok () := by
  unfold checkSeal at h
  rw [hseal, hplan] at h
  dsimp only at h
  split at h
  · cases h
  · assumption

@[simp] theorem revokeApproval_pendingAction :
    (revokeApproval s).pendingAction = s.pendingAction := by
  unfold revokeApproval
  dsimp only
  split_ifs <;> rfl

@[simp] theorem revokeApproval_nativeProcessRecords :
    (revokeApproval s).nativeProcessRecords = s.nativeProcessRecords := by
  unfold revokeApproval
  dsimp only
  split_ifs <;> rfl

@[simp] theorem revokeApproval_caseSeal : (revokeApproval s).caseSeal = s.caseSeal := by
  unfold revokeApproval
  dsimp only
  split_ifs <;> rfl

@[simp] theorem revokeApproval_engineeringPlan :
    (revokeApproval s).engineeringPlan = s.engineeringPlan := by
  unfold revokeApproval
  dsimp only
  split_ifs <;> rfl

/-- A new session has no approval, and does not stand in a run or a repair. -/
theorem revokeApproval_session :
    (revokeApproval s).solveApproved = false ∧ (revokeApproval s).executionApproval = none ∧
      (revokeApproval s).currentState ≠ .simulation ∧
      (revokeApproval s).currentState ≠ .runtimeRepair := by
  unfold revokeApproval
  dsimp only
  split_ifs with hsimulation hrepair
  · exact ⟨rfl, rfl, nofun, nofun⟩
  · exact ⟨rfl, rfl, nofun, nofun⟩
  · exact ⟨rfl, rfl, hsimulation, hrepair⟩

/-- Everything a load that returns a state went through. -/
structure Loaded (host : ControllerHost) (agent : EngineeringAgent) (file : CheckpointFile)
    (reconcile : Bool) (agent' : EngineeringAgent) (state : CFDState) (payload : Payload)
    (saved : CFDState) (records : List ProcessRow) (s : CFDState) : Prop where
  opened : openCheckpoint host agent file = .ok payload
  read : readState host payload = .ok saved
  inputs : checkInputs (restoreOrigins agent.workspace payload.inputs) payload.inputs = .ok ()
  quiet : checkQuiet host reconcile saved = .ok ()
  ledger : ∃ settled, checkRecords host reconcile agent saved = .ok (records, settled) ∧
    settlePending host settled = .ok s
  fields : restoreFields host s snapshotFields agent.fields = .ok agent'.fields
  caseSeal : checkSeal (restoreOrigins agent.workspace payload.inputs) s = .ok ()
  workspace : agent'.workspace = restoreOrigins agent.workspace payload.inputs
  runner : agent'.runner = agent.runner.map fun _ => records
  state : state = revokeApproval s

theorem load_eq_ok (h : load host agent file reconcile = .ok (agent', state)) :
    ∃ payload saved records s,
      Loaded host agent file reconcile agent' state payload saved records s := by
  unfold load at h
  obtain ⟨payload, hopened, h⟩ := Traversal.bind_eq_ok.1 h
  obtain ⟨saved, hread, h⟩ := Traversal.bind_eq_ok.1 h
  obtain ⟨⟨⟩, hinputs, h⟩ := Traversal.bind_eq_ok.1 h
  obtain ⟨⟨⟩, hquiet, h⟩ := Traversal.bind_eq_ok.1 h
  obtain ⟨⟨records, settled⟩, hrecords, h⟩ := Traversal.bind_eq_ok.1 h
  obtain ⟨s, hpending, h⟩ := Traversal.bind_eq_ok.1 h
  obtain ⟨fields, hfields, h⟩ := Traversal.bind_eq_ok.1 h
  obtain ⟨⟨⟩, hseal, h⟩ := Traversal.bind_eq_ok.1 h
  cases h
  exact ⟨payload, saved, records, s, hopened, hread, hinputs, hquiet, ⟨settled, hrecords, hpending⟩,
    hfields, hseal, rfl, rfl, rfl⟩

end

/-! ### Guarded checkpoints -/

/-- What holds of a state that `load` returns. -/
structure Resumed (host : ControllerHost) (agent : EngineeringAgent) (file : CheckpointFile)
    (agent' : EngineeringAgent) (state : CFDState) : Prop where
  /-- The digest is that of the payload, and the payload is of this machine, this root and these
  case inputs. -/
  saved : ∃ payload, file = .envelope payload ⟨payload⟩ ∧ payload.workspace = agent.root ∧
    payload.environmentSha256 = host.environment ∧ payload.meshGraphSha256 = host.meshGraph ∧
    agent'.workspace.tree = agent.workspace.tree ∧
    agent'.workspace.executionFileSeals = .ok payload.inputs
  quiet : ∀ row ∈ state.nativeProcessRecords, row.status.inFlight = false
  ledger : ∀ rows ∈ agent'.runner, rows = state.nativeProcessRecords
  journal : host.restartJournal = false
  approval : state.solveApproved = false ∧ state.executionApproval = none
  current : state.currentState ≠ .simulation ∧ state.currentState ≠ .runtimeRepair
  pending : state.pendingAction = none
  caseSeal : ∀ caseSeal ∈ state.caseSeal, ∀ plan ∈ state.engineeringPlan,
    agent'.workspace.verifySeal caseSeal plan = .ok ()

/-- What a load does with a saved state of work in flight. -/
structure Refused (host : ControllerHost) (agent : EngineeringAgent) (file : CheckpointFile)
    (reconcile : Bool) (saved : CFDState) : Prop where
  transaction : transactionActive host saved = true →
    ∃ e, load host agent file reconcile = .error e
  action : ∀ a ∈ saved.pendingAction, a.uncertain = true →
    ¬ (reconcile = true ∧ a.isRuntime = true) → ∃ e, load host agent file reconcile = .error e
  process : ∀ row ∈ saved.nativeProcessRecords, row.status.inFlight = true → reconcile = false →
    ∃ e, load host agent file reconcile = .error e
  /-- A reconciliation is for a plan on several ranks, and leaves no process behind. -/
  reconciled : ∀ r, reconcile = true → load host agent file reconcile = .ok r →
    localMpi host saved = true ∧
      ∀ row ∈ agent.runner.getD saved.nativeProcessRecords, row.status.inFlight = true →
        host.cgroupVacant row = true ∧ ∃ pid, row.pid = some pid ∧ host.pidVacant pid = true

section
variable {host : ControllerHost} {agent agent' : EngineeringAgent} {file : CheckpointFile}
  {reconcile : Bool} {s state : CFDState}

theorem resumed_of_load (h : load host agent file reconcile = .ok (agent', state)) :
    Resumed host agent file agent' state := by
  obtain ⟨payload, saved, records, s, hl⟩ := load_eq_ok h
  obtain ⟨hfile, -, hroot, henvironment, hgraph⟩ := openCheckpoint_eq_ok hl.opened
  obtain ⟨settled, hrecords, hpending⟩ := hl.ledger
  obtain ⟨hsettled, hidle, -, -⟩ := checkRecords_eq_ok hrecords
  obtain ⟨events, hs⟩ := settlePending_eq_ok hpending
  have hledger : s.nativeProcessRecords = records := by rw [hs, hsettled]
  have hsession := revokeApproval_session (s := s)
  rw [← hl.state] at hsession
  constructor
  · refine ⟨payload, hfile, hroot, henvironment, hgraph.symm, ?_, ?_⟩
    · rw [hl.workspace]
      rfl
    · rw [hl.workspace]
      exact checkInputs_eq_ok.1 hl.inputs
  · rw [hl.state, revokeApproval_nativeProcessRecords, hledger]
    exact hidle
  · intro rows hrows
    rw [hl.runner] at hrows
    obtain ⟨-, -, rfl⟩ := Option.map_eq_some_iff.1 hrows
    rw [hl.state, revokeApproval_nativeProcessRecords, hledger]
  · exact (checkQuiet_eq_ok.1 hl.quiet).2.1
  · exact ⟨hsession.1, hsession.2.1⟩
  · exact hsession.2.2
  · rw [hl.state, revokeApproval_pendingAction, hs]
  · intro caseSeal hseal plan hplan
    rw [hl.state, revokeApproval_caseSeal] at hseal
    rw [hl.state, revokeApproval_engineeringPlan] at hplan
    rw [hl.workspace]
    exact checkSeal_eq_ok hl.caseSeal hseal hplan

/-- The state of a saved file is the one that was saved. -/
theorem saved_of_load {host₀ : ControllerHost} {agent₀ : EngineeringAgent} {s saved : CFDState}
    {reason : Text} (hsave : save host₀ agent₀ s reason = .ok (file, saved))
    (hvalid : host.validateState (host₀.dumpState saved) = some saved)
    {payload : Payload} (hopened : openCheckpoint host agent file = .ok payload) {s' : CFDState}
    (hread : readState host payload = .ok s') : s' = saved := by
  unfold save at hsave
  split at hsave
  · cases hsave
  · cases hsave
    obtain ⟨hfile, -⟩ := openCheckpoint_eq_ok hopened
    cases hfile
    obtain ⟨hread, -⟩ := readState_eq_ok hread
    exact Option.some.inj (hread.symm.trans hvalid)

theorem error_of_not_ok {ε α : Type} {x : Except ε α} (h : ∀ a, x ≠ .ok a) : ∃ e, x = .error e := by
  cases x with
  | error e => exact ⟨e, rfl⟩
  | ok a => exact absurd rfl (h a)

theorem refused_of_save {host₀ : ControllerHost} {agent₀ : EngineeringAgent} {s saved : CFDState}
    {reason : Text} (hsave : save host₀ agent₀ s reason = .ok (file, saved))
    (hvalid : host.validateState (host₀.dumpState saved) = some saved) :
    Refused host agent file reconcile saved := by
  have hloaded : ∀ r, load host agent file reconcile = .ok r →
      ∃ records settled, checkQuiet host reconcile saved = .ok () ∧
        checkRecords host reconcile agent saved = .ok (records, settled) := by
    rintro ⟨agent', state⟩ h
    obtain ⟨payload, saved', records, s', hl⟩ := load_eq_ok h
    obtain rfl := saved_of_load hsave hvalid hl.opened hl.read
    obtain ⟨settled, hrecords, -⟩ := hl.ledger
    exact ⟨records, settled, hl.quiet, hrecords⟩
  constructor
  · refine fun htransaction => error_of_not_ok fun r h => ?_
    obtain ⟨-, -, hquiet, -⟩ := hloaded r h
    cases htransaction.symm.trans (checkQuiet_eq_ok.1 hquiet).1
  · refine fun a ha huncertain hruntime => error_of_not_ok fun r h => ?_
    obtain ⟨-, -, hquiet, -⟩ := hloaded r h
    have hrefused := (checkQuiet_eq_ok.1 hquiet).2.2
    rw [actionRefused, ha] at hrefused
    refine hruntime ?_
    simpa [huncertain] using hrefused
  · refine fun row hrow hflight hreconcile => error_of_not_ok fun r h => ?_
    obtain ⟨records, settled, -, hrecords⟩ := hloaded r h
    obtain ⟨-, hidle, hsame, -⟩ := checkRecords_eq_ok hrecords
    rw [hsame hreconcile] at hrow
    cases (hidle row hrow).symm.trans hflight
  · intro r hreconcile h
    obtain ⟨records, settled, -, hrecords⟩ := hloaded r h
    obtain ⟨-, -, -, hsettle⟩ := checkRecords_eq_ok hrecords
    obtain ⟨hmpi, hrows⟩ := settleRecords_eq_ok (hsettle hreconcile)
    refine ⟨hmpi, fun row hrow hflight => ?_⟩
    obtain ⟨row', -, hrow'⟩ := Traversal.exists_mem_of_mapM hrows hrow
    exact (settleRow_eq_ok hrow').2 hflight

end

/-- **A load is guarded.** A state that it returns fits the machine, the case, the ledger and its
own seal, and is not approved; and a state that was saved with work in flight is refused, but for
a run on several ranks that the caller reconciles, none of whose processes is left. -/
theorem load_guarded (host : ControllerHost) (agent : EngineeringAgent) (file : CheckpointFile)
    (reconcile : Bool) :
    (∀ agent' state, load host agent file reconcile = .ok (agent', state) →
      Resumed host agent file agent' state) ∧
    ∀ host₀ agent₀ s reason saved, save host₀ agent₀ s reason = .ok (file, saved) →
      host.validateState (host₀.dumpState saved) = some saved →
      Refused host agent file reconcile saved :=
  ⟨fun _ _ => resumed_of_load, fun _ _ _ _ _ => refused_of_save⟩

/-- A plan on two ranks. -/
def rankedPlan : EngineeringPlan where
  caseName := "channel".toList
  solver := "incompressibleFluid".toList
  solverProviderId := "org".toList
  execution := some
    { driver := "foamRun".toList, driverProviderId := "org".toList, scopes := [{}] }
  openfoamVersion := "13".toList
  problemInterpretation := []
  temporalBehavior := .transient
  motionKind := .static
  meshMotionRequirement := .static
  meshStrategy := []
  confirmedIntakeSha256 := []

/-- A state with one process that is recorded as running. -/
def runningState : CFDState where
  engineeringPlan := some rankedPlan
  nativeProcessRecords :=
    [{ id := 1, command := ["foamRun".toList], effect := "solve".toList, status := .running,
       pid := some 7 }]
  currentState := .simulation

/-- An agent whose budget holds the rows of `runningState`. -/
def idleAgent : EngineeringAgent where
  root := "/runs/channel".toList
  workspace := { tree := ∅, authoredPaths := .empty, assetPaths := .empty }
  runner := some runningState.nativeProcessRecords
  fields _ := none

/-- A machine on which no process is left and whose models read `runningState` back. -/
def vacantHost : ControllerHost where
  environment := ⟨[]⟩
  meshGraph := none
  restartJournal := false
  cgroupVacant _ := true
  pidVacant _ := true
  persists := true
  clock := "0.0".toList
  dumpState _ := []
  validateState _ := some runningState
  validateEvent := some
  jsonable _ document := document
  validateField _ document := some document
  truthy document := document ≠ []
  parallel _ := .onRanks 0

/-- The payload of `runningState`. -/
def runningPayload : Payload where
  schemaVersion := 1
  reason := "native-running".toList
  savedUnix := "0.0".toList
  workspace := "/runs/channel".toList
  environmentSha256 := ⟨[]⟩
  inputs := []
  meshGraphSha256 := none
  state := []

/-- The checkpoint of `runningState`. -/
def runningFile : CheckpointFile := .envelope runningPayload ⟨runningPayload⟩

theorem load_guarded_running :
    (∃ agent' state, load vacantHost idleAgent runningFile true = .ok (agent', state) ∧
        Resumed vacantHost idleAgent runningFile agent' state) ∧
      Refused vacantHost idleAgent runningFile true runningState := by
  constructor
  · exact ⟨_, _, rfl, (load_guarded vacantHost idleAgent runningFile true).1 _ _ rfl⟩
  · exact (load_guarded vacantHost idleAgent runningFile true).2 vacantHost idleAgent runningState
      "native-running".toList runningState rfl rfl

/-- A state that was saved while a native process was running is loaded, with reconciliation. -/
theorem running_reconciled :
    save vacantHost idleAgent runningState "native-running".toList =
        .ok (runningFile, runningState) ∧
      (∃ row ∈ runningState.nativeProcessRecords, row.status.inFlight = true) ∧
      runningState.pendingAction = none ∧
      ∃ r, load vacantHost idleAgent runningFile true = .ok r :=
  ⟨rfl, ⟨_, .head _, rfl⟩, rfl, _, rfl⟩

end Workflow
end OpenFoamAgent
