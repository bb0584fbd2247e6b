/-
# The preparation of a parallel restart

`_times`, `_ranks`, `_snapshot`, `inspect_parallel_restart`, `verify_restart` and
`prepare_parallel_restart` of `runtime/restart.py`.

The preparation is a transaction over the files of a workspace. It is modelled as
the list of the states behind each of its atomic steps: an exception or a crash
leaves one of these states, for nothing is rolled back. A journal that has been
created and not been written yet is a state of its own. The directories between
the archive and a directory that is moved into it, and texts that are written in
part into the archive, are not seen.

What a rank and its fields are read as, the runtime contract and the rewriting of
the control dictionary are arguments. The first two are functions of the case
files, and so do not depend on the journal, on the archives or on the receipt.
-/
import OpenFoamAgent.Library.Interruptions
import OpenFoamAgent.Python.FloatArithmetic
import OpenFoamAgent.Verification.FoamSemantics
import OpenFoamAgent.Runtime.ExecutionPolicy

namespace OpenFoamAgent
namespace Runtime

open Python Schemas Verification

/-! ### Case files -/

/-- What a name of a directory stands for; the content of a directory is one value. -/
inductive Entry (D : Type) where
  | directory (content : D)
  | file
  | link
  deriving DecidableEq

/-- A name in the case root, or in the directory of a processor. -/
abbrev Place := Option Text × Text

/-- The names in the case root and in the processor directories, and the two dictionaries that
the transaction reads or writes. -/
structure CaseFiles (D : Type) where
  root : Dict Text (Entry D)
  processors : Text → Dict Text (Entry D)
  controlDict : Option Text
  decomposeParDict : Option Text

namespace CaseFiles

variable {D : Type} (c : CaseFiles D)

/-- The names of the case root or of a processor directory. -/
def names : Option Text → Dict Text (Entry D)
  | none => c.root
  | some processor => c.processors processor

/-- What stands at a place. -/
def entry (place : Place) : Option (Entry D) := (c.names place.1).get place.2

/-- The case files without a place. -/
def without : Place → CaseFiles D
  | (none, name) => { c with root := c.root.erase name }
  | (some processor, name) =>
    { c with processors := fun p =>
        if p = processor then (c.processors processor).erase name else c.processors p }

end CaseFiles

/-! ### Times -/

/-- The exceptions of the restart functions. -/
inductive RestartError where
  /-- `Invalid numeric restart directory.` -/
  | invalidDirectory (name : Text)
  /-- `Ambiguous numeric time aliases on a rank.` -/
  | ambiguousTimes
  /-- `Existing processor topology differs from the approved uncollated rank count.` -/
  | topology
  /-- `Parallel restart currently requires a static mesh; …` -/
  | movingMesh
  /-- `Restart time is not common to every rank.` -/
  | notCommon
  /-- `All ranks must use the same literal restart directory name.` -/
  | names
  /-- An exception of the mesh and field checks of a rank. -/
  | rank (message : Text)
  /-- `Decomposition settings do not match the restart contract.` -/
  | decomposition
  /-- `Parallel restart requires a local_mpi execution contract.` -/
  | notLocalMpi
  /-- `Non-finite restart time.`, or a time that is no number. -/
  | nonFinite
  /-- `No complete common restart snapshot: …` -/
  | noSnapshot
  /-- An exception of the runtime contract. -/
  | contract (message : Text)
  /-- `Parallel restart requires a controller-compiled transient execution interval.` -/
  | notTransient
  /-- `Restart time must lie inside the controller-compiled execution interval.` -/
  | outsideInterval
  /-- `An interrupted restart transaction needs manual reconciliation.` -/
  | interrupted
  /-- The control dictionary is missing. -/
  | noControlDict
  /-- `Dynamic controlDict cannot be changed mechanically for restart.` -/
  | dynamicControlDict
  /-- An exception of `rewrite_top_level`. -/
  | rewrite (message : Text)
  /-- The archive directory exists. -/
  | archiveExists
  /-- A source of a move is missing. -/
  | missingSource (place : Place)
  /-- An exception of `write_text`. -/
  | write (message : Text)
  /-- `Unsafe restart receipt path.`, `Unsafe restart receipt temporary path.` -/
  | unsafeReceipt
  /-- `An explicit restart receipt is required.` -/
  | noRestart
  /-- `Restart receipt is missing or unsafe.` -/
  | missingReceipt
  /-- `Restart receipt differs from the approved hash.` -/
  | receiptHash
  /-- `Parallel restart input/contract changed: …` -/
  | inputChanged
  deriving DecidableEq

/-- The key of a number among times, in units; a negative or infinite one is no key. -/
def timeKey : Binary64 → Option ℕ
  | .finite negative units => if negative = true ∧ units ≠ 0 then none else some units
  | _ => none

/-- The time that a name stands for, in units. -/
def directoryTime (name : Text) : Option ℕ := (parseFloat name).bind timeKey

section
variable {D : Type}

/-- The loop of `_times`. -/
def timesFrom : List (Text × Entry D) → List (ℕ × Text) → Except RestartError (List (ℕ × Text))
  | [], times => .ok times
  | (name, entry) :: rest, times =>
    match parseFloat name with
    | none => timesFrom rest times
    | some number =>
      match timeKey number, entry with
      | some value, .directory _ =>
        if value ∈ times.map Prod.fst then .error .ambiguousTimes
        else timesFrom rest (times ++ [(value, name)])
      | _, _ => .error (.invalidDirectory name)

/-- `_times`. -/
def directoryTimes (entries : Dict Text (Entry D)) : Except RestartError (List (ℕ × Text)) :=
  timesFrom entries.items []

/-- The name of a processor directory. -/
def processorName (i : ℕ) : Text := "processor".toList ++ (Nat.repr i).toList

/-- The name of the case root is that of a processor directory. -/
def isProcessor (name : Text) : Bool := "processor".toList.isPrefixOf name

/-- The entry is a directory, and no link. -/
def Entry.isDirectory : Entry D → Bool
  | directory _ => true
  | _ => false

/-- `_ranks`. -/
def ranks (c : CaseFiles D) (count : ℕ) : Except RestartError (List Text) :=
  let expected := (List.range count).map processorName
  let observed := (c.root.items.map Prod.fst).filter isProcessor
  if (observed.all expected.contains && expected.all observed.contains) &&
      expected.all fun name => (c.root.get name).any Entry.isDirectory then .ok expected
  else .error .topology

/-! ### Snapshots -/

/-- A record of a file that a snapshot binds. -/
structure FileRecord where
  path : Text
  sha256 : Digest
  sizeBytes : ℕ
  deriving DecidableEq

/-- The parts of a snapshot that `verify_restart` compares. -/
structure Snapshot where
  timeName : Text
  ranks : ℕ
  files : List FileRecord
  executionWithoutRestart : Sha256 ExecutionSpec
  intakeSha256 : Text
  deriving DecidableEq

/-- `ParallelRestart`. -/
structure RestartReference (ρ : Type) where
  timeName : Text
  manifestSha256 : Sha256 ρ
  deriving DecidableEq

/-- The receipt. -/
structure Receipt where
  snapshot : Snapshot
  /-- `rejected_newer_snapshots` -/
  rejected : List (Option ℕ × RestartError)
  archive : Text
  originalControlSha256 : Sha256 Text
  deriving DecidableEq

/-- The envelope of the receipt. -/
structure Envelope where
  receipt : Receipt
  sha256 : Sha256 Receipt
  deriving DecidableEq

/-- The execution interval of the runtime contract. -/
structure ExecutionInterval where
  transient : Bool
  startTime : Binary64
  endTime : Option Binary64

/-- What the transaction calls. -/
structure RestartModels (D : Type) where
  /-- `execution.parallel`. -/
  parallel : Document → ParallelExecution
  /-- `execution.parallel.restart`, and the parallel part with another one. -/
  restart : Document → Option (RestartReference Receipt)
  withRestart : Document → Option (RestartReference Receipt) → Document
  /-- The mesh and field checks of a rank at a time: the files they read. -/
  inspectRank : CaseFiles D → EngineeringPlan → Text → Text → Except Text (List FileRecord)
  /-- The reading of `system/decomposeParDict`. -/
  decomposition : Text → ParallelExecution → Option FileRecord
  /-- The records by their paths, sorted. -/
  arrange : List FileRecord → List FileRecord
  /-- `compile_runtime_contract`, which verifies the receipt of an earlier restart. -/
  interval : CaseFiles D → Option Envelope → EngineeringPlan → Except Text ExecutionInterval
  /-- `rewrite_top_level` for `startFrom` and `startTime`. -/
  rewrite : Text → Text → Except Text Text
  /-- The exceptions of `write_text` for the control dictionary, in front of the write and
  behind it. -/
  refusesWrite : CaseFiles D → Text → Option Text
  exceedsSize : CaseFiles D → Option Text

variable (m : RestartModels D)

/-- The records of one rank. -/
def snapshotRank (c : CaseFiles D) (plan : EngineeringPlan) (value : Option ℕ) (root : Text) :
    Except RestartError (Text × List FileRecord) :=
  match directoryTimes (c.processors root) with
  | .error e => .error e
  | .ok found =>
    match value.bind fun v => found.lookup v with
    | none => .error .notCommon
    | some name =>
      match m.inspectRank c plan root name with
      | .error message => .error (.rank message)
      | .ok records => .ok (name, records)

/-- `_snapshot` of a plan with an execution. -/
def snapshot (c : CaseFiles D) (plan : EngineeringPlan) (execution : ExecutionSpec)
    (value : Option ℕ) : Except RestartError Snapshot :=
  let parallel := m.parallel execution.parallel
  if plan.meshMotionRequirement ≠ .static then .error .movingMesh
  else
    match ranks c parallel.ranks with
    | .error e => .error e
    | .ok roots =>
      match roots.mapM (snapshotRank m c plan value) with
      | .error e => .error e
      | .ok found =>
        match found with
        | [] => .error .names
        | (name, records) :: others =>
          if others.any (·.1 ≠ name) then .error .names
          else
            match c.decomposeParDict.bind (m.decomposition · parallel) with
            | none => .error .decomposition
            | some record =>
              .ok
                { timeName := name
                  ranks := parallel.ranks
                  files := m.arrange (records ++ others.flatMap Prod.snd ++ [record])
                  executionWithoutRestart :=
                    ⟨{ execution with parallel := m.withRestart execution.parallel none }⟩
                  intakeSha256 := plan.confirmedIntakeSha256 }

/-- The loop of `inspect_parallel_restart`. -/
def firstSnapshot (c : CaseFiles D) (plan : EngineeringPlan) (execution : ExecutionSpec)
    (latest : Bool) :
    List (Option ℕ) → List (Option ℕ × RestartError) →
      Except RestartError (Snapshot × List (Option ℕ × RestartError))
  | [], _ => .error .noSnapshot
  | value :: values, rejected =>
    match snapshot m c plan execution value with
    | .ok found => .ok (found, rejected)
    | .error e =>
      if latest then firstSnapshot c plan execution latest values (rejected ++ [(value, e)])
      else .error e

/-- The values that every rank has. -/
def commonTimes : List (List (ℕ × Text)) → List ℕ
  | [] => []
  | first :: others =>
    (first.map Prod.fst).filter fun value =>
      others.all fun found => (found.map Prod.fst).contains value

/-- The candidates of `inspect_parallel_restart`: `none` is `latest`. -/
def candidates (common : List ℕ) : Option Text → Except RestartError (List (Option ℕ))
  | none => .ok ((common.insertionSort fun a b => b ≤ a).map some)
  | some name =>
    match parseFloat name with
    | some number => if number.isFinite then .ok [timeKey number] else .error .nonFinite
    | none => .error .nonFinite

/-- `inspect_parallel_restart`. -/
def inspectParallelRestart (c : CaseFiles D) (plan : EngineeringPlan) (timeName : Option Text) :
    Except RestartError (ExecutionSpec × Snapshot × List (Option ℕ × RestartError)) :=
  match plan.execution with
  | none => .error .notLocalMpi
  | some execution =>
    if (m.parallel execution.parallel).mode ≠ .localMpi then .error .notLocalMpi
    else
      match ranks c (m.parallel execution.parallel).ranks with
      | .error e => .error e
      | .ok roots =>
        match roots.mapM fun root => directoryTimes (c.processors root) with
        | .error e => .error e
        | .ok found =>
          match candidates (commonTimes found) timeName with
          | .error e => .error e
          | .ok values =>
            (firstSnapshot m c plan execution timeName.isNone values []).map (execution, ·)

/-! ### The transaction -/

/-- The journal. -/
structure Intent where
  archive : Text
  selectedTime : Text
  moves : List Place
  originalControlSha256 : Sha256 Text
  deriving DecidableEq

/-- An archive directory. -/
structure Archive (D : Type) where
  controlBefore : Option Text := none
  outputs : Dict Place (Entry D) := ∅
  transaction : Option Intent := none

/-- The files of a workspace. -/
structure Disk (D : Type) where
  case : CaseFiles D
  /-- `restart-history/` -/
  archives : Text → Option (Archive D)
  /-- `parallel-restart-intent.json`, with its content once that is written. -/
  journal : Option (Option Intent) := none
  /-- `parallel-restart.json` -/
  receipt : Option Envelope := none
  /-- `parallel-restart.tmp`, with its content once that is written. -/
  temporary : Option (Option Envelope) := none
  /-- One of the two is a symbolic link. -/
  receiptLink : Bool := false
  temporaryLink : Bool := false

namespace Disk

variable (d : Disk D)

/-- A change of an archive. -/
def updateArchive (id : Text) (change : Archive D → Archive D) : Disk D :=
  { d with archives := Function.update d.archives id ((d.archives id).map change) }

/-- `archive.mkdir(parents=True)` -/
def makeArchive (id : Text) : Disk D :=
  { d with archives := Function.update d.archives id (some {}) }

/-- `os.replace(source, dest)` of an entry into the archive. -/
def moveInto (id : Text) (place : Place) (entry : Entry D) : Disk D :=
  { d.updateArchive id fun archive =>
      { archive with outputs := archive.outputs.insert place entry } with
    case := d.case.without place }

end Disk

/-- `verify_restart`. -/
def verifyRestart (c : CaseFiles D) (receipt : Option Envelope) (linked : Bool)
    (plan : EngineeringPlan) : Except RestartError Receipt :=
  match plan.execution with
  | none => .error .noRestart
  | some execution =>
    match m.restart execution.parallel with
    | none => .error .noRestart
    | some reference =>
      match receipt with
      | none => .error .missingReceipt
      | some envelope =>
        if linked then .error .missingReceipt
        else if envelope.sha256 ≠ ⟨envelope.receipt⟩ ∨
            envelope.sha256 ≠ reference.manifestSha256 then .error .receiptHash
        else
          match parseFloat reference.timeName with
          | none => .error .nonFinite
          | some number =>
            match snapshot m c plan execution (timeKey number) with
            | .error e => .error e
            | .ok current =>
              if current ≠ envelope.receipt.snapshot then .error .inputChanged
              else .ok envelope.receipt

/-- The places that are later than a time, in the order of the roots. -/
def laterPlaces (c : CaseFiles D) (selected : ℕ) :
    List (Option Text) → Except RestartError (List Place)
  | [] => .ok []
  | root :: roots =>
    match directoryTimes (c.names root) with
    | .error e => .error e
    | .ok found =>
      (laterPlaces c selected roots).map
        (((found.filter fun t => selected < t.1).map fun t => (root, t.2)) ++ ·)

/-- What the transaction found out before its first step. -/
structure Preparation where
  execution : ExecutionSpec
  snapshot : Snapshot
  rejected : List (Option ℕ × RestartError)
  selected : ℕ
  original : Text
  modified : Text

/-- `selected < bound.start_time or selected >= bound.end_time`, for a transient contract. -/
def checkInterval (interval : ExecutionInterval) (selected : ℕ) : Except RestartError Unit :=
  let time := Binary64.finite false selected
  match interval.endTime with
  | none => .error .notTransient
  | some endTime =>
    if interval.transient = false then .error .notTransient
    else if (time.le interval.startTime && !interval.startTime.le time) || endTime.le time then
      .error .outsideInterval
    else .ok ()

/-- The time that a snapshot selects. -/
def selectedTime (found : Snapshot) : Except RestartError ℕ :=
  match directoryTime found.timeName with
  | none => .error .nonFinite
  | some selected => .ok selected

/-- The rewritten control dictionary. -/
def rewriteControl (c : CaseFiles D) (found : Snapshot) : Except RestartError (Text × Text) :=
  match c.controlDict with
  | none => .error .noControlDict
  | some original =>
    if (parseTopLevelAssignments original).2 then
      match m.rewrite original found.timeName with
      | .error message => .error (.rewrite message)
      | .ok modified => .ok (original, modified)
    else .error .dynamicControlDict

/-- The part of `prepare_parallel_restart` in front of its first step. -/
def checkPreparation (d : Disk D) (plan : EngineeringPlan) (timeName : Option Text) :
    Except RestartError Preparation :=
  match inspectParallelRestart m d.case plan timeName with
  | .error e => .error e
  | .ok (execution, found, rejected) =>
    match selectedTime found with
    | .error e => .error e
    | .ok selected =>
      match m.interval d.case (if d.receiptLink then none else d.receipt) plan with
      | .error message => .error (.contract message)
      | .ok interval =>
        match checkInterval interval selected with
        | .error e => .error e
        | .ok () =>
          if d.journal.isSome then .error .interrupted
          else
            match rewriteControl m d.case found with
            | .error e => .error e
            | .ok (original, modified) =>
              .ok ⟨execution, found, rejected, selected, original, modified⟩

/-- The states behind the steps of the transaction, and how it ended. -/
abbrev Transaction (D : Type) := Steps (Disk D) RestartError (EngineeringPlan × Envelope)

/-- The plan that refers to the receipt. -/
def updatedPlan (plan : EngineeringPlan) (execution : ExecutionSpec) (envelope : Envelope) :
    EngineeringPlan :=
  { plan with
    execution := some { execution with
      parallel := m.withRestart execution.parallel
        (some ⟨envelope.receipt.snapshot.timeName, envelope.sha256⟩) } }

/-- From the verification of the receipt on. -/
def finishTransaction (id : Text) (intent : Intent) (updated : EngineeringPlan)
    (envelope : Envelope) (d : Disk D) : Transaction D :=
  match verifyRestart m d.case d.receipt d.receiptLink updated with
  | .error e => .raised e
  | .ok _ =>
    let recorded := d.updateArchive id fun archive => { archive with transaction := some intent }
    .after recorded (.after { recorded with journal := none } (.returned (updated, envelope)))

/-- The receipt is written beside its place and moved there, and what follows. -/
def placeReceipt (id : Text) (intent : Intent) (updated : EngineeringPlan) (envelope : Envelope)
    (d : Disk D) : Transaction D :=
  if d.receiptLink || d.temporaryLink then .raised .unsafeReceipt
  else
    let placed := { d with temporary := none, receipt := some envelope }
    .after { d with temporary := some none } (.after { d with temporary := some (some envelope) }
      (.after placed (finishTransaction m id intent updated envelope placed)))

/-- From the rewriting of the control dictionary on. -/
def writeReceipt (id : Text) (plan : EngineeringPlan) (p : Preparation) (intent : Intent)
    (d : Disk D) : Transaction D :=
  match m.refusesWrite d.case p.modified with
  | some message => .raised (.write message)
  | none =>
    let written := { d with case := { d.case with controlDict := some p.modified } }
    let receipt : Receipt := ⟨p.snapshot, p.rejected, id, intent.originalControlSha256⟩
    let envelope : Envelope := ⟨receipt, ⟨receipt⟩⟩
    .after written
      (match m.exceedsSize written.case with
      | some message => .raised (.write message)
      | none =>
        placeReceipt m id intent (updatedPlan m plan p.execution envelope) envelope written)

/-- The moves into the archive, and what follows them. -/
def moveOutputs (id : Text) (next : Disk D → Transaction D) :
    List Place → Disk D → Transaction D
  | [], d => next d
  | place :: places, d =>
    match d.case.entry place with
    | none => .raised (.missingSource place)
    | some entry =>
      let moved := d.moveInto id place entry
      .after moved (moveOutputs id next places moved)

/-- From the archive directory on. -/
def runTransaction (id : Text) (plan : EngineeringPlan) (p : Preparation) (roots : List Text)
    (d : Disk D) : Transaction D :=
  match laterPlaces d.case p.selected (roots.map some ++ [none]) with
  | .error e => .raised e
  | .ok moves =>
    let intent : Intent := ⟨id, p.snapshot.timeName, moves, ⟨p.original⟩⟩
    let opened := { d with journal := some none }
    let journalled := { d with journal := some (some intent) }
    let saved := journalled.updateArchive id fun archive =>
      { archive with controlBefore := some p.original }
    .after opened (.after journalled (.after saved
      (moveOutputs id (writeReceipt m id plan p intent) moves saved)))

/-- `prepare_parallel_restart`; `id` is the name of the archive directory. -/
def prepareParallelRestart (d : Disk D) (plan : EngineeringPlan) (timeName : Option Text)
    (id : Text) : Transaction D :=
  match checkPreparation m d plan timeName with
  | .error e => .raised e
  | .ok p =>
    if (d.archives id).isSome then .raised .archiveExists
    else
      let archived := d.makeArchive id
      .after archived
        (match ranks archived.case (m.parallel p.execution.parallel).ranks with
        | .error e => .raised e
        | .ok roots => runTransaction m id plan p roots archived)

end

end Runtime
end OpenFoamAgent
