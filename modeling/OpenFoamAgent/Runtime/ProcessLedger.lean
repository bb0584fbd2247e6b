/-
# The process ledger

`ProcessBudget` of `tools/execution_policy.py` and the part of `SafeRunner.run`
and `_run_streaming` that keeps it: one row for every native process, appended
and written to `process-ledger.json` before the process is created, and updated
when it runs and when it ends.

Every runner has its own copy of the rows and writes the whole file. Here any
number of runners share a workspace: an action of one of them is one call that
can be seen from outside, and may be cut short where the source may raise. The
temporary file of a write is not seen, and the replacement of the ledger is one
step. The lock of the workspace is held from `enter` to the end of `run`, and the
system frees it when the controller of a runner dies.
-/
import Mathlib.Logic.Function.Basic
import OpenFoamAgent.Python.Text

namespace OpenFoamAgent
namespace Runtime

open Python

/-- How the loop of `_run_streaming` ended. -/
inductive Termination where
  | exited | signal | timeout | outputLimit | logIoError | workspaceQuota
  | aggregateCpuLimit | aggregateMemoryLimit
  deriving DecidableEq

/-- The status of a row. -/
inductive RowStatus where
  | spawnIntent
  | running
  | isolationUnavailable
  /-- `cancelled`, or `spawn_or_io_error` -/
  | aborted (cancelled : Bool)
  | ended (termination : Termination)
  /-- `interrupted_reconciled_for_explicit_restart` -/
  | reconciled
  deriving DecidableEq

/-- The row is in `{"running", "spawn_intent"}`. -/
def RowStatus.inFlight : RowStatus → Bool
  | spawnIntent | running => true
  | _ => false

/-- What the last update of a row records. Seconds are counted in ticks of the clock. -/
structure Completion where
  returnCode : ℤ
  wallSeconds : ℕ
  outputBytes : ℕ
  aggregateCpuSeconds : Option ℕ := none
  deriving DecidableEq

/-- One row of the ledger. -/
structure ProcessRow where
  id : ℕ
  command : List Text
  effect : Text
  status : RowStatus
  pid : Option ℕ := none
  completion : Option Completion := none
  deriving DecidableEq

/-- The ids are `1 … n`: the check of `ProcessBudget.__post_init__`. -/
def Numbered (rows : List ProcessRow) : Prop :=
  rows.map (·.id) = List.range' 1 rows.length

instance (rows : List ProcessRow) : Decidable (Numbered rows) :=
  inferInstanceAs (Decidable (_ = _))

/-- The row of `reserve`. -/
def reservation (rows : List ProcessRow) (command : List Text) (effect : Text) : ProcessRow where
  id := rows.length + 1
  command := command
  effect := effect
  status := .spawnIntent

/-- `update`: the row of an id, changed. -/
def updateRow (rows : List ProcessRow) (id : ℕ) (change : ProcessRow → ProcessRow) :
    List ProcessRow :=
  rows.map fun row => if row.id = id then change row else row

/-- `update(record, status=status)` -/
def setStatus (status : RowStatus) (row : ProcessRow) : ProcessRow := { row with status }

/-- `update(record, pid=pid, status="running")` -/
def setRunning (pid : ℕ) (row : ProcessRow) : ProcessRow :=
  { row with pid := some pid, status := .running }

/-- `update(record, status=termination, wall_seconds=…, output_bytes=…)` -/
def setEnded (termination : Termination) (completion : Completion) (row : ProcessRow) :
    ProcessRow :=
  { row with status := .ended termination, completion := some completion }

/-! ### Runners -/

/-- Where a runner stands in `run`. -/
inductive Stage where
  | idle
  /-- The lock is held. -/
  | entered
  /-- The ledger is the runner's copy, no row is in flight and no budget is exhausted. -/
  | checked
  /-- The row is reserved and written. -/
  | reserved (id : ℕ)
  /-- The process is created. -/
  | created (id : ℕ)
  /-- The process is recorded as running. -/
  | watching (id : ℕ)
  deriving DecidableEq

/-- A `SafeRunner`: its copy of the rows, and where it stands. -/
structure Runner where
  records : List ProcessRow
  stage : Stage
  deriving DecidableEq

/-- A workspace and its runners. -/
structure Machine where
  /-- `process-ledger.json` -/
  ledger : Option (List ProcessRow)
  /-- The owner of `.native-execution.lock`. -/
  lock : Option ℕ
  runners : ℕ → Option Runner
  /-- The rows of the processes created, in order. -/
  created : List ℕ

/-- One call of a runner. `persists` says whether the ledger could be written. -/
inductive RunnerAction where
  /-- A new controller makes the runner. -/
  | load
  | enter
  /-- The checks under the lock; `refused` where a quota or a preflight raises. -/
  | check (refused : Bool)
  | reserve (command : List Text) (effect : Text) (limit : ℕ) (persists : Bool)
  /-- The isolation of the process cannot be started. -/
  | isolationFails (persists : Bool)
  | create
  | markRunning (pid : ℕ) (persists : Bool)
  /-- An exception in the `try` block of `_run_streaming`. -/
  | abort (cancelled persists : Bool)
  /-- An exception that no handler of `_run_streaming` records. -/
  | escape
  | finish (termination : Termination) (completion : Completion) (persists : Bool)
  /-- The controller dies. -/
  | crash

namespace Machine

/-- The runner becomes `r`. -/
def put (m : Machine) (i : ℕ) (r : Runner) : Machine :=
  { m with runners := Function.update m.runners i (some r) }

/-- The runner leaves `run` with its copy of the rows, and the lock is free. -/
def leave (m : Machine) (i : ℕ) (records : List ProcessRow) : Machine :=
  { m.put i ⟨records, .idle⟩ with lock := none }

/-- `_persist`, where it succeeds. -/
def persist (m : Machine) (persists : Bool) (records : List ProcessRow) : Machine :=
  if persists then { m with ledger := some records } else m

/-- The runner updates its row and leaves. -/
def close (m : Machine) (i : ℕ) (records : List ProcessRow) (persists : Bool) : Machine :=
  (m.persist persists records).leave i records

/-- One action. An action that does not fit where its runner stands does nothing. -/
def step (m : Machine) (event : ℕ × RunnerAction) : Machine :=
  let i := event.1
  match m.runners i, event.2 with
  | none, .load =>
    match m.ledger with
    | none => m.put i ⟨[], .idle⟩
    | some rows => if Numbered rows then m.put i ⟨rows, .idle⟩ else m
  | some _, .crash =>
    { m with
      runners := Function.update m.runners i none
      lock := if m.lock = some i then none else m.lock }
  | some ⟨records, .idle⟩, .enter =>
    if m.lock = none then { m.put i ⟨records, .entered⟩ with lock := some i } else m
  | some ⟨records, .entered⟩, .check refused =>
    if m.ledger.any (· ≠ records) ∨ records.any (·.status.inFlight) ∨ refused then
      m.leave i records
    else m.put i ⟨records, .checked⟩
  | some ⟨records, .checked⟩, .reserve command effect limit persists =>
    if limit ≤ records.length then m.leave i records
    else
      let row := reservation records command effect
      if persists then
        (m.persist true (records ++ [row])).put i ⟨records ++ [row], .reserved row.id⟩
      else m.leave i (records ++ [row])
  | some ⟨records, .reserved id⟩, .isolationFails persists =>
    m.close i (updateRow records id (setStatus .isolationUnavailable)) persists
  | some ⟨records, .reserved id⟩, .create =>
    { m.put i ⟨records, .created id⟩ with created := m.created ++ [id] }
  | some ⟨records, .created id⟩, .markRunning pid persists =>
    (m.persist persists (updateRow records id (setRunning pid))).put i
      ⟨updateRow records id (setRunning pid), if persists then .watching id else .created id⟩
  | some ⟨records, .reserved id⟩, .abort cancelled persists
  | some ⟨records, .created id⟩, .abort cancelled persists
  | some ⟨records, .watching id⟩, .abort cancelled persists =>
    m.close i (updateRow records id (setStatus (.aborted cancelled))) persists
  | some ⟨records, .reserved _⟩, .escape
  | some ⟨records, .created _⟩, .escape
  | some ⟨records, .watching _⟩, .escape => m.leave i records
  | some ⟨records, .watching id⟩, .finish termination completion persists =>
    m.close i (updateRow records id (setEnded termination completion)) persists
  | _, _ => m

end Machine
end Runtime
end OpenFoamAgent
