/-
# What a refused load leaves behind

`CheckpointStore.load` assigns as it goes: the tracking sets of the workspace in front of the
comparison of the inputs, the rows of the ledger one by one while it asks for their processes,
and the fields of the controller one by one while it validates them. A refusal undoes nothing.

`loadInPlace` is `load` with what it leaves behind (`load_eq`), and `unchanged_iff` says when a
load that raises leaves everything as it was.
-/
import OpenFoamAgent.Workflow.CheckpointStore

namespace OpenFoamAgent
namespace Workflow

open Python Schemas Workspace
open OpenFoamAgent.Runtime (ProcessRow)

/-! ### Sessions -/

/-- A row of the ledger with what only the reconciliation writes into it. -/
structure LedgerRow where
  row : ProcessRow
  /-- `aggregate_cpu_seconds` of a row without completion, in microseconds. -/
  usage : Option ℕ := none
  reconciliation : Option Text := none
  deriving DecidableEq

/-- What a load may assign: the agent, the ledger in memory and the ledger file. -/
structure Session where
  root : Text
  workspace : CaseWorkspace
  /-- The rows of the budget of a `SafeRunner`; other tools have none. -/
  rows : Option (List LedgerRow)
  /-- `process-ledger.json`. -/
  ledger : List LedgerRow
  fields : SnapshotField → Option Document
  resumePending : Bool := false

namespace Session

/-- The agent of a session. -/
def agent (session : Session) : EngineeringAgent where
  root := session.root
  workspace := session.workspace
  runner := session.rows.map (·.map (·.row))
  fields := session.fields
  resumePending := session.resumePending

/-- The session with the origins of a checkpoint. -/
def tracking (session : Session) (inputs : List CaseFileSeal) : Session :=
  { session with workspace := restoreOrigins session.workspace inputs }

/-- The session whose budget holds some rows. -/
def holding (session : Session) (rows : List LedgerRow) : Session :=
  { session with rows := session.rows.map fun _ => rows }

/-- `runner.budget._persist()`. -/
def persisted (session : Session) : Session :=
  { session with ledger := session.rows.getD session.ledger }

end Session

/-! ### Loading in place -/

section
variable (host : ControllerHost) (usage : ProcessRow → Option ℕ)

/-- The reconciliation of one row, and the exception that ends it. `usage` is the figure of
`cpu.stat` where the cgroup of the row still exists. -/
def settleInPlace (r : LedgerRow) : LedgerRow × Option CheckpointError :=
  if !r.row.status.inFlight then (r, none)
  else if !host.cgroupVacant r.row then (r, some .cgroup)
  else
    let r := { r with usage := (usage r.row).or r.usage }
    match r.row.pid with
    | none => (r, some .missingPid)
    | some pid =>
      if host.pidVacant pid then
        ({ r with
          row := { r.row with status := .reconciled }
          reconciliation := some ("PID and process group absent; outputs still require " ++
            "snapshot validation").toList }, none)
      else (r, some .pidPresent)

/-- The loop over the rows. -/
def settleRows : List LedgerRow → List LedgerRow × Option CheckpointError
  | [] => ([], none)
  | r :: rs =>
    match settleInPlace host usage r with
    | (r, some e) => (r :: rs, some e)
    | (r, none) => let settled := settleRows rs; (r :: settled.1, settled.2)

/-- The rows that a load looks at. -/
def loadedRows (session : Session) (s : CFDState) : List LedgerRow :=
  session.rows.getD (s.nativeProcessRecords.map fun row => { row := row })

/-- The explicit reconciliation. -/
def reconcileInPlace (session : Session) (s : CFDState) :
    Session × Except CheckpointError (List LedgerRow) :=
  if !localMpi host s then (session, .error .notParallel)
  else
    let settled := settleRows host usage (loadedRows session s)
    match settled.2 with
    | some e => (session.holding settled.1, .error e)
    | none =>
      if session.rows.isSome && !host.persists then
        (session.holding settled.1, .error .ledgerUnwritable)
      else ((session.holding settled.1).persisted, .ok settled.1)

/-- The checks of the processes. -/
def checkInPlace (reconcile : Bool) (session : Session) (s : CFDState) :
    Session × Except CheckpointError CFDState :=
  match (if reconcile then reconcileInPlace host usage session s
    else (session, .ok (loadedRows session s))) with
  | (session, .error e) => (session, .error e)
  | (session, .ok rows) =>
    let records := rows.map (·.row)
    let s := if reconcile then { s with nativeProcessRecords := records } else s
    if records.any (·.status.inFlight) then (session, .error .inFlight)
    else if session.rows.isSome && decide (records ≠ s.nativeProcessRecords) then
      (session, .error .ledgerAdvanced)
    else (session, .ok s)

/-- The loop over `_SNAPSHOT_FIELDS`: the fields it leaves, and the exception that ends it. -/
def restoreInPlace (s : CFDState) :
    List SnapshotField → (SnapshotField → Option Document) →
      (SnapshotField → Option Document) × Option CheckpointError
  | [], fields => (fields, none)
  | field :: rest, fields =>
    match s.engineeringCheckpoint field with
    | none => restoreInPlace s rest fields
    | some document =>
      match host.validateField field document with
      | none => (fields, some (.invalidField field))
      | some value => restoreInPlace s rest (Function.update fields field (some value))

/-- The steps of `load` behind the checks of the processes. -/
def finishInPlace (session : Session) (s : CFDState) :
    Session × Except CheckpointError CFDState :=
  match settlePending host s with
  | .error e => (session, .error e)
  | .ok s =>
    match restoreInPlace host s snapshotFields session.fields with
    | (fields, some e) => ({ session with fields := fields }, .error e)
    | (fields, none) =>
      match checkSeal session.workspace s with
      | .error e => ({ session with fields := fields }, .error e)
      | .ok () => ({ session with fields := fields, resumePending := true }, .ok (revokeApproval s))

/-- `CheckpointStore.load`, with the session that it leaves. -/
def loadInPlace (session : Session) (file : CheckpointFile) (reconcile : Bool) :
    Session × Except CheckpointError CFDState :=
  match openCheckpoint host session.agent file with
  | .error e => (session, .error e)
  | .ok payload =>
    match readState host payload with
    | .error e => (session, .error e)
    | .ok s =>
      let session := session.tracking payload.inputs
      match checkInputs session.workspace payload.inputs with
      | .error e => (session, .error e)
      | .ok () =>
        match checkQuiet host reconcile s with
        | .error e => (session, .error e)
        | .ok () =>
          match checkInPlace host usage reconcile session s with
          | (session, .error e) => (session, .error e)
          | (session, .ok s) => finishInPlace host session s

end

/-! ### The same load -/

/-- What a stateful computation says of one without a state. -/
def Agrees {σ ε α β : Type} (x : Except ε β) (r : σ × Except ε α) (back : σ → α → β) : Prop :=
  match r.2 with
  | .error e => x = .error e
  | .ok a => x = .ok (back r.1 a)

/-- A value, or the exception in front of it. -/
def orRaise {ε α : Type} : Option ε → α → Except ε α
  | some e, _ => .error e
  | none, a => .ok a

section
variable (host : ControllerHost) (usage : ProcessRow → Option ℕ)

theorem settleRow_eq (r : LedgerRow) :
    settleRow host r.row =
      orRaise (settleInPlace host usage r).2 (settleInPlace host usage r).1.row := by
  unfold settleRow settleInPlace
  split_ifs with hflight hcgroup
  · rfl
  · rfl
  · dsimp only
    cases r.row.pid with
    | none => rfl
    | some pid =>
      dsimp only
      split_ifs <;> rfl

theorem mapM_settleRow (rows : List LedgerRow) :
    (rows.map (·.row)).mapM (settleRow host) =
      orRaise (settleRows host usage rows).2 ((settleRows host usage rows).1.map (·.row)) := by
  induction rows with
  | nil => rfl
  | cons r rs ih =>
    rw [List.map_cons, List.mapM_cons, settleRow_eq host usage, ih, settleRows]
    cases hsettle : settleInPlace host usage r with
    | mk r' e =>
      cases e with
      | some e => rfl
      | none =>
        dsimp only
        cases (settleRows host usage rs).2 <;> rfl

theorem restoreFields_eq (s : CFDState) (names : List SnapshotField)
    (fields : SnapshotField → Option Document) :
    restoreFields host s names fields =
      orRaise (restoreInPlace host s names fields).2 (restoreInPlace host s names fields).1 := by
  induction names generalizing fields with
  | nil => rfl
  | cons field names ih =>
    rw [restoreFields, restoreInPlace]
    cases s.engineeringCheckpoint field with
    | none => exact ih fields
    | some document =>
      dsimp only
      cases host.validateField field document with
      | none => rfl
      | some value => exact ih _

theorem map_loadedRows (session : Session) (s : CFDState) :
    (loadedRows session s).map (·.row) =
      session.agent.runner.getD s.nativeProcessRecords := by
  unfold loadedRows Session.agent
  cases session.rows with
  | none =>
    rw [Option.getD_none, List.map_map]
    exact List.map_id _
  | some rows => rfl

/-- The rows of the budget are those that the checks of the processes leave. -/
theorem checkRecords_eq (reconcile : Bool) (session : Session) (s : CFDState) :
    Agrees (checkRecords host reconcile session.agent s)
      (checkInPlace host usage reconcile session s) fun session' s' =>
        (session'.agent.runner.getD s'.nativeProcessRecords, s') := by
  unfold checkRecords checkInPlace
  cases reconcile with
  | false =>
    simp only [Bool.false_eq_true, if_false]
    rw [map_loadedRows]
    have hsome : session.agent.runner.isSome = session.rows.isSome := Option.isSome_map ..
    rw [hsome]
    split_ifs <;> rfl
  | true =>
    simp only [if_true]
    unfold settleRecords reconcileInPlace
    rw [← map_loadedRows, mapM_settleRow host usage]
    have hsome : session.agent.runner.isSome = session.rows.isSome := Option.isSome_map ..
    rw [hsome]
    by_cases hmpi : (!localMpi host s) = true
    · rw [if_pos hmpi, if_pos hmpi]
      rfl
    rw [if_neg hmpi, if_neg hmpi]
    dsimp only
    generalize (settleRows host usage (loadedRows session s)).1 = rows
    cases (settleRows host usage (loadedRows session s)).2 with
    | some e => rfl
    | none =>
        dsimp only [orRaise]
        by_cases hpersists : (session.rows.isSome && !host.persists) = true
        · rw [if_pos hpersists, if_pos hpersists]
          rfl
        · have hrecords : ((session.holding rows).persisted.agent.runner.getD
              (rows.map (·.row))) = rows.map (·.row) := by
            unfold Session.persisted Session.holding Session.agent
            cases session.rows <;> rfl
          have hsome' : (session.holding rows).persisted.rows.isSome = session.rows.isSome :=
            Option.isSome_map ..
          rw [if_neg hpersists, if_neg hpersists]
          dsimp only
          rw [hsome']
          split_ifs
          · rfl
          · rfl
          · rw [Agrees]
            dsimp only
            rw [hrecords]

theorem map_getD_of_isSome {α β : Type} {o : Option α} {o' : Option β}
    (h : o.isSome = o'.isSome) (d : α) : (o'.map fun _ => o.getD d) = o := by
  cases o <;> cases o' <;> simp_all

theorem checkInPlace_fst (reconcile : Bool) (session : Session) (s : CFDState) :
    (checkInPlace host usage reconcile session s).1 =
      if reconcile then (reconcileInPlace host usage session s).1 else session := by
  have hfst : (checkInPlace host usage reconcile session s).1 =
      (if reconcile then reconcileInPlace host usage session s
        else (session, .ok (loadedRows session s))).1 := by
    rw [checkInPlace]
    split
    · rename_i h
      rw [h]
    · rename_i h
      rw [h]
      dsimp only
      split_ifs <;> rfl
  rw [hfst]
  split_ifs <;> rfl

/-- The checks of the processes touch the rows and the ledger file only. -/
theorem checkInPlace_frame (reconcile : Bool) (session : Session) (s : CFDState) :
    ∃ rows ledger, (checkInPlace host usage reconcile session s).1 =
        { session with rows := rows, ledger := ledger } ∧
      rows.isSome = session.rows.isSome := by
  have hholding : ∀ rows, (session.holding rows).rows.isSome = session.rows.isSome :=
    fun _ => Option.isSome_map ..
  rw [checkInPlace_fst]
  by_cases hreconcile : reconcile = true
  · rw [if_pos hreconcile, reconcileInPlace]
    by_cases hmpi : (!localMpi host s) = true
    · rw [if_pos hmpi]
      exact ⟨session.rows, session.ledger, rfl, rfl⟩
    · rw [if_neg hmpi]
      dsimp only
      cases (settleRows host usage (loadedRows session s)).2 with
      | some e => exact ⟨_, _, rfl, hholding _⟩
      | none =>
        dsimp only
        split_ifs
        · exact ⟨_, _, rfl, hholding _⟩
        · exact ⟨_, _, rfl, hholding _⟩
  · rw [if_neg hreconcile]
    exact ⟨session.rows, session.ledger, rfl, rfl⟩

/-- **`load` is the load in place, without the session of a refusal.** -/
theorem load_eq (session : Session) (file : CheckpointFile) (reconcile : Bool) :
    Agrees (load host session.agent file reconcile)
      (loadInPlace host usage session file reconcile) fun session' s => (session'.agent, s) := by
  unfold load loadInPlace
  cases openCheckpoint host session.agent file with
  | error e => rfl
  | ok payload =>
    dsimp only [bind, Except.bind]
    cases readState host payload with
    | error e => rfl
    | ok s =>
      dsimp only
      have hworkspace : (session.tracking payload.inputs).workspace =
        restoreOrigins session.agent.workspace payload.inputs := rfl
      rw [hworkspace]
      cases checkInputs (restoreOrigins session.agent.workspace payload.inputs) payload.inputs with
      | error e => rfl
      | ok u =>
        dsimp only
        cases checkQuiet host reconcile s with
        | error e => rfl
        | ok u =>
          dsimp only
          have hcheck := checkRecords_eq host usage reconcile (session.tracking payload.inputs) s
          obtain ⟨rows, ledger, hsession, hsome⟩ :=
            checkInPlace_frame host usage reconcile (session.tracking payload.inputs) s
          have hagent : checkRecords host reconcile (session.tracking payload.inputs).agent s =
            checkRecords host reconcile session.agent s := rfl
          rw [hagent] at hcheck
          cases hr : checkInPlace host usage reconcile (session.tracking payload.inputs) s with
          | mk session' r =>
            rw [hr] at hcheck hsession
            cases r with
            | error e =>
              rw [show checkRecords host reconcile session.agent s = .error e from hcheck]
              rfl
            | ok s' =>
              obtain rfl : session' = _ := hsession
              rw [show checkRecords host reconcile session.agent s = .ok _ from hcheck]
              dsimp only
              unfold finishInPlace
              cases settlePending host s' with
              | error e => rfl
              | ok s'' =>
                dsimp only
                rw [restoreFields_eq]
                have hfields : (session.tracking payload.inputs).fields = session.agent.fields :=
                  rfl
                rw [hfields]
                cases hrestore : restoreInPlace host s'' snapshotFields session.agent.fields with
                | mk fields e =>
                  cases e with
                  | some e => rfl
                  | none =>
                    dsimp only [orRaise]
                    rw [hworkspace]
                    cases checkSeal (restoreOrigins session.agent.workspace payload.inputs) s'' with
                    | error e => rfl
                    | ok u =>
                      have hrunner : (session.agent.runner.map fun _ =>
                          (rows.map (·.map (·.row))).getD s'.nativeProcessRecords) =
                            rows.map (·.map (·.row)) := by
                        refine map_getD_of_isSome ?_ _
                        rw [Option.isSome_map, hsome]
                        exact (Option.isSome_map ..).symm
                      rw [Agrees]
                      dsimp only
                      exact congrArg (fun runner => Except.ok
                        ({ session.agent with
                            workspace := restoreOrigins session.agent.workspace payload.inputs
                            runner := runner
                            fields := fields
                            resumePending := true }, revokeApproval s'')) hrunner

end

/-! ### What is kept -/

/-- Everything that a load may assign is as it was; the tracking sets as sets. -/
structure Unchanged (session session' : Session) : Prop where
  root : session'.root = session.root
  workspace : { session'.workspace with
    authoredPaths := session.workspace.authoredPaths
    assetPaths := session.workspace.assetPaths } = session.workspace
  authored : ∀ p, p ∈ session'.workspace.authoredPaths ↔ p ∈ session.workspace.authoredPaths
  assets : ∀ p, p ∈ session'.workspace.assetPaths ↔ p ∈ session.workspace.assetPaths
  rows : session'.rows = session.rows
  ledger : session'.ledger = session.ledger
  fields : session'.fields = session.fields
  resumePending : session'.resumePending = session.resumePending

/-- The saved inputs have the origins that the workspace tracks. -/
def SameOrigins (w : CaseWorkspace) (inputs : List CaseFileSeal) : Prop :=
  (∀ p, (∃ x ∈ inputs, x.origin = .agent ∧ x.path = p) ↔ p ∈ w.authoredPaths) ∧
    ∀ p, (∃ x ∈ inputs, x.origin = .userAsset ∧ x.path = p) ↔ p ∈ w.assetPaths

section
variable (host : ControllerHost) (usage : ProcessRow → Option ℕ)

/-- A row in flight that cannot be settled, and of which nothing new is read. -/
def Stuck (r : LedgerRow) : Prop :=
  host.cgroupVacant r.row = false ∨
    ((usage r.row).or r.usage = r.usage ∧ ∀ pid ∈ r.row.pid, host.pidVacant pid = false)

/-- The first row in flight, if there is one, is stuck. -/
def RowsKept (rows : List LedgerRow) : Prop :=
  ∀ r ∈ rows.find? (·.row.status.inFlight), Stuck host usage r

/-- The fields that are assigned: those in front of the first that is not valid. -/
def assignedFields (s : CFDState) (names : List SnapshotField) : List SnapshotField :=
  names.takeWhile fun field =>
    (s.engineeringCheckpoint field).all fun document => (host.validateField field document).isSome

/-- What is assigned to the fields is what they hold. -/
def FieldsKept (s : CFDState) (fields : SnapshotField → Option Document) : Prop :=
  ∀ field ∈ assignedFields host s snapshotFields, ∀ document ∈ s.engineeringCheckpoint field,
    fields field = host.validateField field document

/-- Nothing that a load assigns before it raises differs from what was there: the origins, where
the file and the state are read; then the rows, where the inputs agree and nothing else was in
flight; then the fields, where the processes are gone. -/
def Kept (session : Session) (file : CheckpointFile) (reconcile : Bool) : Prop :=
  ∀ payload s, openCheckpoint host session.agent file = .ok payload →
    readState host payload = .ok s →
    SameOrigins session.workspace payload.inputs ∧
    (checkInputs (restoreOrigins session.workspace payload.inputs) payload.inputs = .ok () →
      checkQuiet host reconcile s = .ok () →
      (reconcile = true → localMpi host s = true → ∀ rows, session.rows = some rows →
        RowsKept host usage rows ∧
          ((∀ r ∈ rows, r.row.status.inFlight = false) → host.persists = true →
            session.ledger = rows)) ∧
      ∀ records s' s'', checkRecords host reconcile session.agent s = .ok (records, s') →
        settlePending host s' = .ok s'' → FieldsKept host s'' session.fields)

theorem settleInPlace_idle {r : LedgerRow} (h : r.row.status.inFlight = false) :
    settleInPlace host usage r = (r, none) := by
  rw [settleInPlace, if_pos (by simp [h])]

/-- A stuck row ends the loop. -/
theorem settleInPlace_snd_of_stuck {r : LedgerRow} (h : r.row.status.inFlight = true)
    (hstuck : Stuck host usage r) : ∃ e, settleInPlace host usage r = (r, some e) := by
  have hgroup : host.cgroupVacant r.row = false →
      settleInPlace host usage r = (r, some .cgroup) := by
    intro hvacant
    rw [settleInPlace, if_neg (by simp [h]), if_pos (by simp [hvacant])]
  rcases hstuck with hvacant | ⟨husage, hpid⟩
  · exact ⟨_, hgroup hvacant⟩
  · cases hvacant : host.cgroupVacant r.row with
    | false => exact ⟨_, hgroup hvacant⟩
    | true =>
      rw [settleInPlace, if_neg (by simp [h]), if_neg (by simp [hvacant]), husage]
      dsimp only
      cases hrow : r.row.pid with
      | none => exact ⟨.missingPid, rfl⟩
      | some pid =>
        dsimp only
        rw [if_neg (by simp [hpid pid hrow])]
        exact ⟨.pidPresent, rfl⟩

/-- A row in flight stays as it is exactly where it is stuck, and then the loop ends. -/
theorem settleInPlace_fst_eq_iff {r : LedgerRow} (h : r.row.status.inFlight = true) :
    (settleInPlace host usage r).1 = r ↔ Stuck host usage r := by
  constructor
  · intro heq
    rw [Stuck]
    by_contra hnot
    rw [not_or, Bool.not_eq_false] at hnot
    obtain ⟨hgroup, hnot⟩ := hnot
    rw [settleInPlace, if_neg (by simp [h]), if_neg (by simp [hgroup])] at heq
    dsimp only at heq
    cases hpid : r.row.pid with
    | none =>
      rw [hpid] at heq hnot
      exact hnot ⟨congrArg (·.usage) heq, fun pid hmem => absurd hmem (by simp)⟩
    | some pid =>
      rw [hpid] at heq hnot
      dsimp only at heq
      split_ifs at heq with hvacant
      · have hstatus := congrArg (·.row.status.inFlight) heq
        dsimp only at hstatus
        rw [h] at hstatus
        exact absurd hstatus (by decide)
      · refine hnot ⟨congrArg (·.usage) heq, fun pid' hmem => ?_⟩
        obtain rfl := Option.some.inj hmem
        simpa using hvacant
  · intro hstuck
    obtain ⟨e, he⟩ := settleInPlace_snd_of_stuck host usage h hstuck
    rw [he]

theorem settleRows_fst_eq_iff (rows : List LedgerRow) :
    (settleRows host usage rows).1 = rows ↔ RowsKept host usage rows := by
  induction rows with
  | nil => exact iff_of_true rfl fun r hr => absurd hr (by simp)
  | cons r rows ih =>
    cases hflight : r.row.status.inFlight with
    | false =>
      have hfind : (r :: rows).find? (·.row.status.inFlight) =
          rows.find? (·.row.status.inFlight) := List.find?_cons_of_neg (by simp [hflight])
      rw [settleRows, settleInPlace_idle host usage hflight, RowsKept, hfind]
      dsimp only
      rw [List.cons.injEq, and_iff_right rfl, ih, RowsKept]
    | true =>
      have hfind : (r :: rows).find? (·.row.status.inFlight) = some r :=
        List.find?_cons_of_pos hflight
      have hkept : RowsKept host usage (r :: rows) ↔ Stuck host usage r := by
        rw [RowsKept, hfind]
        simp
      rw [hkept, ← settleInPlace_fst_eq_iff host usage hflight]
      constructor
      · intro heq
        rw [settleRows] at heq
        split at heq
        · rename_i hsettle
          rw [hsettle]
          exact (List.cons.inj heq).1
        · rename_i hsettle
          rw [hsettle]
          exact (List.cons.inj heq).1
      · intro heq
        obtain ⟨e, he⟩ := settleInPlace_snd_of_stuck host usage hflight
          ((settleInPlace_fst_eq_iff host usage hflight).1 heq)
        rw [settleRows, he]

theorem settleRows_snd_eq_none_iff {rows : List LedgerRow} (h : RowsKept host usage rows) :
    (settleRows host usage rows).2 = none ↔ ∀ r ∈ rows, r.row.status.inFlight = false := by
  induction rows with
  | nil => exact iff_of_true rfl (by simp)
  | cons r rows ih =>
    rw [List.forall_mem_cons]
    cases hflight : r.row.status.inFlight with
    | false =>
      have hfind : (r :: rows).find? (·.row.status.inFlight) =
          rows.find? (·.row.status.inFlight) := List.find?_cons_of_neg (by simp [hflight])
      rw [RowsKept, hfind] at h
      rw [settleRows, settleInPlace_idle host usage hflight, and_iff_right rfl]
      exact ih h
    | true =>
      have hfind : (r :: rows).find? (·.row.status.inFlight) = some r :=
        List.find?_cons_of_pos hflight
      obtain ⟨e, he⟩ := settleInPlace_snd_of_stuck host usage hflight (h r hfind)
      rw [settleRows, he]
      exact iff_of_false (Option.some_ne_none e) fun hidle => absurd hidle.1 (by decide)

/-- The rows and the ledger file behind the checks of the processes. -/
theorem checkInPlace_kept_iff (reconcile : Bool) (session : Session) (s : CFDState) :
    ((checkInPlace host usage reconcile session s).1.rows = session.rows ∧
      (checkInPlace host usage reconcile session s).1.ledger = session.ledger) ↔
    (reconcile = true → localMpi host s = true → ∀ rows, session.rows = some rows →
      RowsKept host usage rows ∧
        ((∀ r ∈ rows, r.row.status.inFlight = false) → host.persists = true →
          session.ledger = rows)) := by
  rw [checkInPlace_fst]
  cases reconcile with
  | false => exact iff_of_true ⟨rfl, rfl⟩ fun h => absurd h (by decide)
  | true =>
    rw [if_pos rfl, reconcileInPlace]
    simp only [forall_const]
    cases hmpi : localMpi host s with
    | false => exact iff_of_true ⟨rfl, rfl⟩ fun h => absurd h (by decide)
    | true =>
      rw [if_neg (by decide)]
      cases hrows : session.rows with
      | none =>
        refine iff_of_true ?_ fun _ rows h => absurd h (by simp)
        cases (settleRows host usage (loadedRows session s)).2 <;>
          simp [Session.holding, Session.persisted, hrows]
      | some rows =>
        have hloaded : loadedRows session s = rows := by rw [loadedRows, hrows, Option.getD_some]
        simp only [forall_const, Option.some.injEq, forall_eq', hloaded]
        rw [← settleRows_fst_eq_iff]
        have hholding : (session.holding (settleRows host usage rows).1).rows =
            some (settleRows host usage rows).1 := by rw [Session.holding, hrows, Option.map_some]
        have hidle : (settleRows host usage rows).1 = rows →
            ((settleRows host usage rows).2 = none ↔ ∀ r ∈ rows, r.row.status.inFlight = false) :=
          fun heq => settleRows_snd_eq_none_iff host usage
            ((settleRows_fst_eq_iff host usage rows).1 heq)
        cases hsnd : (settleRows host usage rows).2 with
        | some e =>
          rw [hsnd] at hidle
          dsimp only
          rw [hholding, Option.some.injEq]
          constructor
          · rintro ⟨heq, -⟩
            exact ⟨heq, fun hall => absurd ((hidle heq).2 hall) (Option.some_ne_none e)⟩
          · rintro ⟨heq, -⟩
            exact ⟨heq, rfl⟩
        | none =>
          rw [hsnd] at hidle
          cases hpersists : host.persists with
          | false =>
            rw [if_pos (by rfl)]
            dsimp only
            rw [hholding, Option.some.injEq]
            constructor
            · rintro ⟨heq, -⟩
              exact ⟨heq, fun _ hfalse => absurd hfalse (by decide)⟩
            · rintro ⟨heq, -⟩
              exact ⟨heq, rfl⟩
          | true =>
            rw [if_neg (by simp)]
            have hledger : (session.holding (settleRows host usage rows).1).persisted.ledger =
                (settleRows host usage rows).1 := by
              rw [Session.persisted, hholding, Option.getD_some]
            have hkeeps : (session.holding (settleRows host usage rows).1).persisted.rows =
                some (settleRows host usage rows).1 := hholding
            dsimp only
            rw [hkeeps, hledger, Option.some.injEq]
            constructor
            · rintro ⟨heq, hsame⟩
              exact ⟨heq, fun _ _ => hsame.symm.trans heq⟩
            · rintro ⟨heq, hsame⟩
              exact ⟨heq, heq.trans (hsame ((hidle heq).1 rfl) rfl).symm⟩

theorem restoreInPlace_of_notMem (s : CFDState) {names : List SnapshotField}
    {field : SnapshotField} (h : field ∉ names) (fields : SnapshotField → Option Document) :
    (restoreInPlace host s names fields).1 field = fields field := by
  induction names generalizing fields with
  | nil => rfl
  | cons name names ih =>
    obtain ⟨hname, hnames⟩ := List.ne_and_not_mem_of_not_mem_cons h
    rw [restoreInPlace]
    cases s.engineeringCheckpoint name with
    | none => exact ih hnames fields
    | some document =>
      dsimp only
      cases host.validateField name document with
      | none => rfl
      | some value =>
        dsimp only
        rw [ih hnames, Function.update_of_ne hname]

theorem restoreInPlace_fst_eq_iff (s : CFDState) {names : List SnapshotField}
    (h : names.Nodup) (fields : SnapshotField → Option Document) :
    (restoreInPlace host s names fields).1 = fields ↔
      ∀ field ∈ assignedFields host s names, ∀ document ∈ s.engineeringCheckpoint field,
        fields field = host.validateField field document := by
  induction names generalizing fields with
  | nil => exact iff_of_true rfl fun field hfield => absurd hfield List.not_mem_nil
  | cons field names ih =>
    obtain ⟨hfield, hnodup⟩ := List.nodup_cons.1 h
    rw [restoreInPlace, assignedFields, List.takeWhile_cons]
    cases hsaved : s.engineeringCheckpoint field with
    | none =>
      rw [if_pos (by rfl), List.forall_mem_cons, hsaved, ih hnodup]
      exact (and_iff_right fun document hdocument => absurd hdocument (by simp)).symm
    | some document =>
      dsimp only
      cases hvalid : host.validateField field document with
      | none =>
        rw [if_neg (by simp [hvalid])]
        exact iff_of_true rfl fun field hfield => absurd hfield List.not_mem_nil
      | some value =>
        rw [if_pos (by simp [hvalid]), List.forall_mem_cons]
        have hhead : (∀ document ∈ s.engineeringCheckpoint field,
            fields field = host.validateField field document) ↔ fields field = some value := by
          rw [hsaved]
          simp [hvalid]
        rw [hhead]
        constructor
        · intro heq
          have hvalue : fields field = some value := by
            rw [← heq, restoreInPlace_of_notMem host s hfield, Function.update_self]
          dsimp only at heq
          rw [← hvalue, Function.update_eq_self] at heq
          exact ⟨hvalue, (ih hnodup fields).1 heq⟩
        · rintro ⟨hvalue, hrest⟩
          dsimp only
          rw [← hvalue, Function.update_eq_self]
          exact (ih hnodup fields).2 hrest

theorem unchanged_tracking_iff (session : Session) (inputs : List CaseFileSeal)
    (rows : Option (List LedgerRow)) (ledger : List LedgerRow)
    (fields : SnapshotField → Option Document) :
    Unchanged session
        { session.tracking inputs with rows := rows, ledger := ledger, fields := fields } ↔
      SameOrigins session.workspace inputs ∧ (rows = session.rows ∧ ledger = session.ledger) ∧
        fields = session.fields := by
  have hmem : ∀ origin p, p ∈ originPaths inputs origin ↔
      ∃ x ∈ inputs, x.origin = origin ∧ x.path = p := by
    intro origin p
    rw [originPaths, OrderedSet.mem_ofList, List.mem_map]
    simp only [List.mem_filter, decide_eq_true_eq, and_assoc]
  constructor
  · intro h
    exact ⟨⟨fun p => (hmem _ p).symm.trans (h.authored p), fun p =>
      (hmem _ p).symm.trans (h.assets p)⟩, ⟨h.rows, h.ledger⟩, h.fields⟩
  · rintro ⟨⟨hauthored, hassets⟩, ⟨hrows, hledger⟩, hfields⟩
    exact ⟨rfl, rfl, fun p => (hmem _ p).trans (hauthored p), fun p =>
      (hmem _ p).trans (hassets p), hrows, hledger, hfields, rfl⟩

/-- What is kept, once the file and the state are read. -/
theorem kept_iff {session : Session} {file : CheckpointFile} {reconcile : Bool}
    {payload : Payload} {s : CFDState}
    (hopen : openCheckpoint host session.agent file = .ok payload)
    (hread : readState host payload = .ok s) :
    Kept host usage session file reconcile ↔ SameOrigins session.workspace payload.inputs ∧
      (checkInputs (restoreOrigins session.workspace payload.inputs) payload.inputs = .ok () →
        checkQuiet host reconcile s = .ok () →
        (reconcile = true → localMpi host s = true → ∀ rows, session.rows = some rows →
          RowsKept host usage rows ∧
            ((∀ r ∈ rows, r.row.status.inFlight = false) → host.persists = true →
              session.ledger = rows)) ∧
        ∀ records s' s'', checkRecords host reconcile session.agent s = .ok (records, s') →
          settlePending host s' = .ok s'' → FieldsKept host s'' session.fields) := by
  constructor
  · intro h
    exact h payload s hopen hread
  · intro h payload' s' hopen' hread'
    obtain rfl := Except.ok.inj (hopen.symm.trans hopen')
    obtain rfl := Except.ok.inj (hread.symm.trans hread')
    exact h

/-- A refusal behind the checks of the processes has assigned some fields. -/
theorem finishInPlace_error {session : Session} {s : CFDState} {e : CheckpointError}
    (h : (finishInPlace host session s).2 = .error e) :
    ∃ fields, (finishInPlace host session s).1 = { session with fields := fields } ∧
      (∀ s', settlePending host s = .ok s' →
        (fields = session.fields ↔ FieldsKept host s' session.fields)) ∧
      ∀ e, settlePending host s = .error e → fields = session.fields := by
  unfold finishInPlace at h ⊢
  cases hpending : settlePending host s with
  | error e =>
    refine ⟨session.fields, rfl, fun s' hok => ?_, fun _ _ => rfl⟩
    cases hok
  | ok s' =>
    rw [hpending] at h
    dsimp only at h ⊢
    have hassigned := restoreInPlace_fst_eq_iff host s' (by decide : snapshotFields.Nodup)
      session.fields
    cases hrestore : restoreInPlace host s' snapshotFields session.fields with
    | mk fields r =>
      rw [hrestore] at h hassigned
      refine ⟨fields, ?_, fun s'' hok => ?_, fun e herror => by cases herror⟩
      · cases r with
        | some e => rfl
        | none =>
          dsimp only at h ⊢
          split at h
          · rfl
          · cases h
      · obtain rfl := Except.ok.inj hok
        exact hassigned

/-- **When a refused load leaves everything as it was.** -/
theorem unchanged_iff (session : Session) (file : CheckpointFile) (reconcile : Bool)
    {e : CheckpointError}
    (h : (loadInPlace host usage session file reconcile).2 = .error e) :
    Unchanged session (loadInPlace host usage session file reconcile).1 ↔
      Kept host usage session file reconcile := by
  have hrefl : Unchanged session session :=
    ⟨rfl, rfl, fun _ => Iff.rfl, fun _ => Iff.rfl, rfl, rfl, rfl, rfl⟩
  unfold loadInPlace at h ⊢
  cases hopen : openCheckpoint host session.agent file with
  | error e =>
    refine iff_of_true hrefl fun payload s hpayload => ?_
    rw [hopen] at hpayload
    cases hpayload
  | ok payload =>
    rw [hopen] at h
    dsimp only at h ⊢
    cases hread : readState host payload with
    | error e =>
      refine iff_of_true hrefl fun payload' s hpayload hs => ?_
      obtain rfl := Except.ok.inj (hopen.symm.trans hpayload)
      rw [hread] at hs
      cases hs
    | ok s =>
      rw [hread] at h
      dsimp only at h ⊢
      rw [kept_iff host usage hopen hread]
      have htracking := unchanged_tracking_iff session payload.inputs session.rows session.ledger
        session.fields
      cases hinputs : checkInputs (restoreOrigins session.workspace payload.inputs)
          payload.inputs with
      | error e =>
        rw [show checkInputs (session.tracking payload.inputs).workspace payload.inputs =
          .error e from hinputs]
        refine htracking.trans (and_congr_right fun _ => iff_of_true ⟨⟨rfl, rfl⟩, rfl⟩ ?_)
        intro hok
        cases hok
      | ok u =>
        rw [show checkInputs (session.tracking payload.inputs).workspace payload.inputs =
          .ok u from hinputs] at h ⊢
        dsimp only at h ⊢
        cases hquiet : checkQuiet host reconcile s with
        | error e =>
          refine htracking.trans (and_congr_right fun _ => iff_of_true ⟨⟨rfl, rfl⟩, rfl⟩ ?_)
          intro _ hok
          cases hok
        | ok u =>
          rw [hquiet] at h
          dsimp only at h ⊢
          have hrows := checkInPlace_kept_iff host usage reconcile
            (session.tracking payload.inputs) s
          obtain ⟨rows, ledger, hsession, -⟩ :=
            checkInPlace_frame host usage reconcile (session.tracking payload.inputs) s
          have hrecords := checkRecords_eq host usage reconcile (session.tracking payload.inputs) s
          rw [show checkRecords host reconcile (session.tracking payload.inputs).agent s =
            checkRecords host reconcile session.agent s from rfl] at hrecords
          cases hcheck : checkInPlace host usage reconcile (session.tracking payload.inputs) s with
          | mk session' r =>
            rw [hcheck] at h hrows hsession hrecords
            obtain rfl : session' = _ := hsession
            have hkept := unchanged_tracking_iff session payload.inputs rows ledger
            cases r with
            | error e =>
              refine (hkept session.fields).trans (and_congr_right fun _ => ?_)
              rw [show checkRecords host reconcile session.agent s = .error e from hrecords]
              refine ⟨fun hall _ _ => ⟨hrows.1 hall.1, fun _ _ _ hok => ?_⟩, fun hall =>
                ⟨hrows.2 (hall rfl rfl).1, rfl⟩⟩
              cases hok
            | ok s' =>
              rw [show checkRecords host reconcile session.agent s = .ok _ from hrecords]
              dsimp only at h ⊢
              obtain ⟨fields, hfields, hassigned, hunassigned⟩ := finishInPlace_error host h
              rw [hfields]
              refine (hkept fields).trans (and_congr_right fun _ => ?_)
              constructor
              · rintro ⟨hall, hsame⟩ - -
                refine ⟨hrows.1 hall, fun records s₁ s₂ hok hpending => ?_⟩
                obtain ⟨-, rfl⟩ := Prod.mk.inj (Except.ok.inj hok)
                exact (hassigned s₂ hpending).1 hsame
              · intro hall
                obtain ⟨hkeeps, hrest⟩ := hall rfl rfl
                refine ⟨hrows.2 hkeeps, ?_⟩
                cases hpending : settlePending host s' with
                | error e => exact hunassigned e hpending
                | ok s'' => exact (hassigned s'' hpending).2 (hrest _ _ _ rfl hpending)

end

/-! ### An asset that loses its protection -/

/-- A session with one imported asset. -/
def assetSession : Session where
  root := "/runs/channel".toList
  workspace :=
    { tree := (∅ : FileTree Text Bytes).insert
        ["constant".toList, "triSurface".toList, "a.stl".toList] (.file [])
      authoredPaths := .empty
      assetPaths := .ofList ["constant/triSurface/a.stl".toList] }
  rows := none
  ledger := []
  fields _ := none

/-- A checkpoint without inputs is refused in a case with an asset: the case keeps the file, and
the workspace protects it no longer. -/
theorem refused_load_lifts_protection :
    ¬ ∀ (host : ControllerHost) (usage : ProcessRow → Option ℕ) (session : Session)
      (file : CheckpointFile) (reconcile : Bool) (e : CheckpointError),
      (loadInPlace host usage session file reconcile).2 = .error e →
        Unchanged session (loadInPlace host usage session file reconcile).1 := by
  intro h
  have hassets := (h vacantHost (fun _ => none) assetSession runningFile false .inputs
    (by rfl)).assets "constant/triSurface/a.stl".toList
  exact absurd (hassets.2 (by decide)) (by decide)

/-- A checkpoint of another version. -/
def nextFile : CheckpointFile :=
  .envelope { runningPayload with schemaVersion := 2 } ⟨{ runningPayload with schemaVersion := 2 }⟩

/-- A refusal in front of every assignment. -/
theorem unchanged_iff_next :
    Unchanged assetSession
      (loadInPlace vacantHost (fun _ => none) assetSession nextFile false).1 := by
  have hraised : (loadInPlace vacantHost (fun _ => none) assetSession nextFile false).2 =
    .error .version := by rfl
  refine (unchanged_iff vacantHost (fun _ => none) assetSession nextFile false hraised).2 ?_
  intro payload s hopen
  cases hopen

end Workflow
end OpenFoamAgent
