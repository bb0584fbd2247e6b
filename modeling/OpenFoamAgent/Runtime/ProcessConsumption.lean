/-
# What processes consume, and what the ledger records of it

The budgets of `SafeRunner.run`, with the clock, the output and the death of a
process in view. A controller runs one process after another: `_run_streaming`
copies the output of the process into its log and completes the row at its end,
an exception leaves the row without the time and the output, and after a crash
the row is settled by the reconciliation of `CheckpointStore.load`.

Beside the ledger the session keeps what each process really used (`Usage`),
which no function of the source reads. Seconds are counted in ticks of the
clock.
-/
import OpenFoamAgent.Runtime.ProcessLedger

namespace OpenFoamAgent
namespace Runtime

open Python

/-- The limits of a run: `ResourceLimits`, and `budget.limit`. -/
structure Allowance where
  totalWallSeconds : ℕ
  maxOutputBytes : ℕ
  maxTotalOutputBytes : ℕ
  limit : ℕ
  deriving DecidableEq

/-- A call of `run`. -/
structure NativeRequest where
  command : List Text
  effect : Text
  timeout : ℕ
  limits : Allowance

/-- `row.get("wall_seconds", 0)` -/
def ProcessRow.wallSeconds (row : ProcessRow) : ℕ :=
  (row.completion.map (·.wallSeconds)).getD 0

/-- `row.get("output_bytes", 0)` -/
def ProcessRow.outputBytes (row : ProcessRow) : ℕ :=
  (row.completion.map (·.outputBytes)).getD 0

/-- `spent_wall` -/
def spentWall (rows : List ProcessRow) : ℕ := (rows.map (·.wallSeconds)).sum

/-- `spent_output` -/
def spentOutput (rows : List ProcessRow) : ℕ := (rows.map (·.outputBytes)).sum

/-- What the process of a row has really used: the time it ran, and its bytes in the log. A row
without a process has used nothing. -/
@[ext] structure Usage where
  id : ℕ
  wall : ℕ := 0
  written : ℕ := 0
  alive : Bool := false
  deriving DecidableEq

/-- Time passes. -/
def Usage.tick (ticks : ℕ) (u : Usage) : Usage :=
  if u.alive then { u with wall := u.wall + ticks } else u

/-- The usage of an id, changed. -/
def updateUsage (usage : List Usage) (id : ℕ) (change : Usage → Usage) : List Usage :=
  usage.map fun u => if u.id = id then change u else u

/-- The process of an id is alive. -/
def aliveIn (usage : List Usage) (id : ℕ) : Bool :=
  usage.any fun u => u.id == id && u.alive

/-- Where `_run_streaming` stands. -/
inductive Phase where
  /-- The row is reserved. -/
  | reserved
  /-- The process is created. -/
  | created
  /-- The process is recorded as running, and its output is read. -/
  | watching
  deriving DecidableEq

/-- The locals of `_run_streaming`. -/
structure Watch where
  id : ℕ
  started : ℕ
  timeout : ℕ
  limits : Allowance
  spentOutput : ℕ
  phase : Phase := .reserved
  total : ℕ := 0
  termination : Termination := .exited
  /-- A write to the log failed, and the loop is left. -/
  broken : Bool := false
  deriving DecidableEq

/-- A workspace and its controller. -/
structure Session where
  now : ℕ
  /-- `process-ledger.json` -/
  ledger : Option (List ProcessRow)
  /-- The runner's copy of the rows, and the run it is in. -/
  runner : Option (List ProcessRow × Option Watch)
  usage : List Usage
  deriving DecidableEq

/-- One event. `persists` says whether the ledger could be written. -/
inductive SessionEvent where
  | tick (ticks : ℕ)
  /-- The process of an id ends, by itself or by a signal. -/
  | exit (id : ℕ)
  /-- A new controller makes its runner. -/
  | load
  /-- A new controller makes its runner and reconciles for an explicit restart. `held` are the rows
  whose process or process group may still exist. -/
  | reconcile (held : List ℕ) (persists : Bool)
  | crash
  /-- `run`, up to the reservation; `refused` where a check outside the budgets raises. -/
  | start (request : NativeRequest) (refused persists : Bool)
  | isolationFails (persists : Bool)
  | create
  | markRunning (pid : ℕ) (persists : Bool)
  /-- A chunk of output. When its write fails, so many of its bytes are in the log. -/
  | output (size : ℕ) (failed : Option ℕ)
  /-- An exception in the `try` block: the process is killed and awaited, then the row is updated. -/
  | abort (cancelled persists : Bool)
  /-- An exception that no handler records. -/
  | escape
  /-- The process has ended; `ended` where its end is not that of the loop. -/
  | finish (ended : Option Termination) (returnCode : ℤ) (persists : Bool)

namespace Session

/-- The row of the run is updated, and the run ends. -/
def close (s : Session) (records : List ProcessRow) (id : ℕ) (change : ProcessRow → ProcessRow)
    (persists : Bool) : Session :=
  { s with
    ledger := if persists then some (updateRow records id change) else s.ledger
    runner := some (updateRow records id change, none) }

/-- The row may be settled: its process is gone. -/
def gone (s : Session) (held : List ℕ) (row : ProcessRow) : Bool :=
  row.pid.isSome && !aliveIn s.usage row.id && !held.contains row.id

/-- The rows in flight are settled. -/
def reconcileRows (rows : List ProcessRow) : List ProcessRow :=
  rows.map fun row => if row.status.inFlight then setStatus .reconciled row else row

/-- The checks and the reservation of `run`. -/
def start (s : Session) (records : List ProcessRow) (request : NativeRequest)
    (refused persists : Bool) : Session :=
  let limits := request.limits
  if s.ledger.any (· ≠ records) ∨ records.any (·.status.inFlight) ∨ refused then s
  else if limits.totalWallSeconds ≤ spentWall records then s
  else if limits.maxTotalOutputBytes ≤ spentOutput records then s
  else if limits.limit ≤ records.length then s
  else
    let row := reservation records request.command request.effect
    if persists then
      { s with
        ledger := some (records ++ [row])
        runner := some (records ++ [row], some {
          id := row.id
          started := s.now
          timeout := min request.timeout (limits.totalWallSeconds - spentWall records)
          limits := limits
          spentOutput := spentOutput records })
        usage := s.usage ++ [{ id := row.id }] }
    else { s with runner := some (records ++ [row], none) }

/-- A chunk is cut to what remains of the output budgets and written. -/
def output (s : Session) (records : List ProcessRow) (w : Watch) (size : ℕ) (failed : Option ℕ) :
    Session :=
  let remaining := min (w.limits.maxOutputBytes - w.total)
    (w.limits.maxTotalOutputBytes - w.spentOutput - w.total)
  let length := min size remaining
  let termination := if remaining < size then .outputLimit else w.termination
  match failed with
  | none =>
    { s with
      runner := some (records, some { w with termination, total := w.total + length })
      usage := updateUsage s.usage w.id fun u => { u with written := u.written + length } }
  | some written =>
    { s with
      runner := some (records, some { w with termination := .logIoError, broken := true })
      usage := updateUsage s.usage w.id fun u =>
        { u with written := u.written + min written length } }

/-- An event of a run. -/
def act (s : Session) (records : List ProcessRow) (w : Watch) : SessionEvent → Session
  | .isolationFails persists =>
    if w.phase = .reserved then s.close records w.id (setStatus .isolationUnavailable) persists
    else s
  | .create =>
    if w.phase = .reserved then
      { s with
        runner := some (records, some { w with phase := .created })
        usage := updateUsage s.usage w.id fun u => { u with alive := true } }
    else s
  | .markRunning pid persists =>
    if w.phase = .created then
      let records' := updateRow records w.id (setRunning pid)
      if persists then
        { s with
          ledger := some records'
          runner := some (records', some { w with phase := .watching }) }
      else { s with runner := some (records', some w) }
    else s
  | .output size failed =>
    if w.phase = .watching ∧ ¬ w.broken then s.output records w size failed else s
  | .abort cancelled persists =>
    if aliveIn s.usage w.id then s
    else s.close records w.id (setStatus (.aborted cancelled)) persists
  | .escape => { s with runner := some (records, none) }
  | .finish ended returnCode persists =>
    if w.phase = .watching ∧ ¬ aliveIn s.usage w.id then
      s.close records w.id (setEnded (ended.getD w.termination)
        { returnCode, wallSeconds := s.now - w.started, outputBytes := w.total }) persists
    else s
  | _ => s

/-- One event. An event that does not fit the state changes nothing. -/
def step (s : Session) (event : SessionEvent) : Session :=
  match s.runner, event with
  | _, .tick ticks => { s with now := s.now + ticks, usage := s.usage.map (Usage.tick ticks) }
  | _, .exit id => { s with usage := updateUsage s.usage id fun u => { u with alive := false } }
  | none, .load =>
    if Numbered (s.ledger.getD []) then { s with runner := some (s.ledger.getD [], none) } else s
  | none, .reconcile held persists =>
    let rows := s.ledger.getD []
    if Numbered rows ∧ (rows.all fun row => !row.status.inFlight || s.gone held row) ∧ persists then
      { s with
        ledger := some (reconcileRows rows)
        runner := some (reconcileRows rows, none) }
    else s
  | some _, .crash => { s with runner := none }
  | some (records, none), .start request refused persists =>
    s.start records request refused persists
  | some (records, some w), event => s.act records w event
  | _, _ => s

end Session
end Runtime
end OpenFoamAgent
