/-
# Execution approvals

`ExecutionApproval` of `contracts/execution.py`: what an explicit user approval
freezes, and the authorization of automatic runtime repairs.

`check_repair_delta` works on copies of three maps and assigns them at its end,
so here it returns the updated approval or raises. Its loop over the changed
files is `repairPath`, and the loop over the changed `controlDict` entries is
`checkControlEntry`. The source iterates over a set of entries there, which
only decides which exception is raised when several are due.
-/
import OpenFoamAgent.Contracts.FoamReader
import OpenFoamAgent.Python.Float
import OpenFoamAgent.Workspace.Seal

namespace OpenFoamAgent
namespace Contracts

open Python Schemas Workspace

/-- `execution_document`: the execution specification, or the document of a plan without one. -/
inductive ExecutionDocument where
  | spec (execution : ExecutionSpec)
  | foamRun (solverModule solverProviderId : Text)
  deriving DecidableEq

def executionDocument (plan : EngineeringPlan) : ExecutionDocument :=
  match plan.execution with
  | some execution => .spec execution
  | none => .foamRun plan.solver plan.solverProviderId

/-- `physical_plan_document`. -/
structure PhysicalPlanDocument where
  confirmedIntakeSha256 : Text
  confirmedFactIds : List Text
  confirmedFactBindings : List ConfirmedFactBinding
  temporalBehavior : TemporalBehavior
  motionKind : MotionKind
  meshMotionRequirement : MeshMotion
  requiredCaseFiles : List Text
  regionLayouts : List RegionCaseLayout
  interfaces : List RegionInterface
  completion : Option CompletionContract
  quantitiesOfInterest : Document
  conservationChecks : Document
  deriving DecidableEq

def physicalPlanDocument (plan : EngineeringPlan) : PhysicalPlanDocument where
  confirmedIntakeSha256 := plan.confirmedIntakeSha256
  confirmedFactIds := plan.confirmedFactIds
  confirmedFactBindings := plan.confirmedFactBindings
  temporalBehavior := plan.temporalBehavior
  motionKind := plan.motionKind
  meshMotionRequirement := plan.meshMotionRequirement
  requiredCaseFiles := plan.requiredCaseFiles
  regionLayouts := plan.regionLayouts
  interfaces := plan.interfaces
  completion := plan.completion
  quantitiesOfInterest := plan.quantitiesOfInterest
  conservationChecks := plan.conservationChecks

/-- `ResourceLimits`. -/
structure ResourceLimits where
  maxNativeProcesses : ℕ := 40
  wallSeconds : ℕ := 3600
  cpuSeconds : Option ℕ := none
  memoryBytes : Option ℕ := none
  maxOutputBytes : ℕ := 268435456
  maxCaseBytes : ℕ := 2000000000
  maxRanks : ℕ := 8
  maxProcesses : ℕ := 256
  cpuCores : Document := "8.0".toList
  totalCpuSeconds : Option Document := none
  totalWallSeconds : Document := "86400.0".toList
  maxTotalOutputBytes : ℕ := 1000000000
  deriving DecidableEq

/-- The exceptions of the approval checks. -/
inductive ApprovalError where
  /-- `Execution approval is internally inconsistent.` -/
  | inconsistent
  /-- `Execution topology/arguments/resources changed; explicit approval is required.` -/
  | executionChanged
  /-- `Confirmed physical implementation contract changed; explicit approval is required.` -/
  | physicalPlanChanged
  /-- `Approved intake changed.` -/
  | intakeChanged
  /-- `Repair changes input outside numerical-control authorization: {path}` -/
  | outsideAuthorization (path : Text)
  /-- `Cannot inspect approved repair input {path}: …` -/
  | cannotInspect (path : Text)
  /-- A path the workspace refuses: its exception is not caught. -/
  | workspace (e : CheckError)
  /-- `Repair baseline has unapproved changes: {path}` -/
  | unapprovedBaseline (path : Text)
  /-- `Repair would modify a frozen requirement implementation file: {path}` -/
  | frozenFile (path : Text)
  /-- `Cannot resolve frozen requirement entry {path}:{entry}` -/
  | unresolvedEntry (path entry : Text)
  /-- `Repair would modify frozen requirement entry {path}:{entry}` -/
  | frozenEntry (path entry : Text)
  /-- `controlDict repair authorization requires complete literal top-level entries.` -/
  | incompleteControlDict
  /-- `Repair would modify frozen user requirement controlDict entries: …` -/
  | frozenControlEntries (entries : List Text)
  /-- `Repair changes unauthorized controlDict entries: …` -/
  | unauthorizedEntries (entries : List Text)
  /-- `Cannot resolve original numerical repair limits.` -/
  | unresolvedLimits
  /-- `adjustTimeStep requires a literal boolean.` -/
  | adjustTimeStepLiteral
  /-- `Adaptive timestep cap exceeds original approval.` -/
  | adaptiveCap
  /-- `{label} requires a positive finite scalar.` -/
  | scalar (label : Text)
  /-- `Automatic repair may only reduce {entry} within original approval.` -/
  | notReduced (entry : Text)
  /-- `Repair changes inputs outside numerical-control authorization: …` -/
  | filesOutsideAuthorization (paths : List Text)
  deriving DecidableEq

/-! ### Scalars and path kinds -/

/-- `positive_scalar`, as a magnitude in units. -/
def positiveScalar (value : Option Text) (label : Text) : Except ApprovalError ℕ :=
  match value with
  | none => .error (.scalar label)
  | some v =>
    match parseFloat v with
    | some (.finite false units) => if 0 < units then .ok units else .error (.scalar label)
    | _ => .error (.scalar label)

/-- `_RUNTIME_NUMERICAL_DICTIONARIES`. -/
def runtimeNumericalDictionaries : List Text := ["fvSchemes".toList, "fvSolution".toList]

/-- `_RUNTIME_CONTROLDICT_MUTABLE_ENTRIES`. -/
def runtimeControlDictMutableEntries : List Text :=
  ["deltaT".toList, "maxDeltaT".toList, "adjustTimeStep".toList, "maxCo".toList,
    "maxAlphaCo".toList]

/-- The kinds `_runtime_repair_path_kind` distinguishes. -/
inductive RepairKind where
  | numericalDictionary
  | controlDict
  deriving DecidableEq

/-- `path.rsplit("/", 1)[-1]`. -/
def lastPart (path : Text) : Text := (path.splitOn '/').getLastD []

/-- `_runtime_repair_path_kind`. -/
def runtimeRepairPathKind (path : Text) : Option RepairKind :=
  if !"system/".toList.isPrefixOf path then none
  else if lastPart path ∈ runtimeNumericalDictionaries then some .numericalDictionary
  else if path = "system/controlDict".toList then some .controlDict
  else none

/-! ### Approvals -/

/-- The evidence locations of one binding: path and entry path. -/
def bindingLocations (binding : ConfirmedFactBinding) : List (Text × Option Text) :=
  binding.caseAssertions.map (fun a => (a.path, a.entryPath)) ++
    match binding.numericRelation with
    | none => []
    | some relation =>
      (relation.numerator ++ relation.denominator).map fun t => (t.path, t.entryPath)

/-- The evidence locations of all bindings of a plan. An empty entry path counts as none. -/
def evidenceLocations (plan : EngineeringPlan) : List (Text × Option Text) :=
  (plan.confirmedFactBindings.flatMap bindingLocations).map fun x =>
    (x.1, x.2.filter (· != []))

/-- The protected entries of a path, sorted. -/
def protectedEntriesOf (plan : EngineeringPlan) (path : Text) : List Text :=
  (((evidenceLocations plan).filterMap fun x => if x.1 = path then x.2 else none).dedup).insertionSort
    (· ≤ ·)

/-- `_protected_repair_locations`: the protected entries by path. -/
def protectedRepairEntriesOf (plan : EngineeringPlan) : Dict Text (List Text) :=
  .ofItems (((evidenceLocations plan).filterMap fun x => x.2.map fun _ => x.1).map fun path =>
    (path, protectedEntriesOf plan path))

/-- `_protected_repair_locations`: the protected whole files, sorted. -/
def protectedRepairFilesOf (plan : EngineeringPlan) : List Text :=
  (((evidenceLocations plan).filterMap fun x => if x.2 = none then some x.1 else none).dedup).insertionSort
    (· ≤ ·)

/-- `ExecutionApproval`. -/
structure ExecutionApproval where
  execution : ExecutionDocument
  executionSha256 : Sha256 ExecutionDocument
  physicalPlanSha256 : Sha256 PhysicalPlanDocument
  intakeSha256 : Text
  approvedManifestSha256 : Sha256 (List CaseFileSeal)
  approvedFiles : Dict Text Digest := ∅
  protectedRepairEntries : Dict Text (List Text) := ∅
  protectedRepairFiles : List Text := []
  authorizedRepairHashes : Dict Text Digest := ∅
  repairBaselines : Dict Text Text := ∅
  authorizedRepairBaseHashes : Dict Text Digest := ∅
  resourceLimits : ResourceLimits := {}
  approvedBy : Text := "explicit_user_solve".toList

namespace ExecutionApproval

/-- `ExecutionApproval.issue`. -/
def issue (plan : EngineeringPlan) (caseSeal : CaseSeal) (limits : Option ResourceLimits) :
    ExecutionApproval where
  execution := executionDocument plan
  executionSha256 := ⟨executionDocument plan⟩
  physicalPlanSha256 := ⟨physicalPlanDocument plan⟩
  intakeSha256 := plan.confirmedIntakeSha256
  approvedManifestSha256 := caseSeal.manifestSha256
  approvedFiles := .ofItems (caseSeal.files.map fun x => (x.path, x.sha256))
  protectedRepairEntries := protectedRepairEntriesOf plan
  protectedRepairFiles := protectedRepairFilesOf plan
  resourceLimits := limits.getD {}

/-- `check_plan`. -/
def checkPlan (approval : ExecutionApproval) (plan : EngineeringPlan) : Except ApprovalError Unit :=
  if (⟨approval.execution⟩ : Sha256 ExecutionDocument) ≠ approval.executionSha256 then
    .error .inconsistent
  else if (⟨executionDocument plan⟩ : Sha256 ExecutionDocument) ≠ approval.executionSha256 then
    .error .executionChanged
  else if (⟨physicalPlanDocument plan⟩ : Sha256 PhysicalPlanDocument) ≠
      approval.physicalPlanSha256 then
    .error .physicalPlanChanged
  else if plan.confirmedIntakeSha256 ≠ approval.intakeSha256 then .error .intakeChanged
  else .ok ()

end ExecutionApproval

/-! ### One changed `controlDict` -/

/-- `a or b` of two optional strings: the empty string counts as absent. -/
def orElse (a b : Option Text) : Option Text :=
  match a with
  | some (c :: cs) => some (c :: cs)
  | _ => b

/-- The literals `adjustTimeStep` may have. -/
def literalBooleans : List Text :=
  ["true".toList, "false".toList, "yes".toList, "no".toList, "on".toList, "off".toList,
    "0".toList, "1".toList]

/-- The literals that switch adaptive time steps on. -/
def trueLiterals : List Text := ["true".toList, "yes".toList, "on".toList, "1".toList]

/-- The keys of either dictionary whose payloads differ. -/
def changedEntries (before after : Entries) : List Text :=
  ((before.map Prod.fst ++ after.map Prod.fst).dedup).filter fun key =>
    canonicalPayload (before.get key) ≠ canonicalPayload (after.get key)

/-- The check of a changed `adjustTimeStep`. -/
def checkAdjustTimeStep (after original : Entries) : Except ApprovalError Unit :=
  match after.get "adjustTimeStep".toList with
  | none => .error .adjustTimeStepLiteral
  | some literal =>
    if literal ∉ literalBooleans then .error .adjustTimeStepLiteral
    else if literal ∈ trueLiterals then do
      let cap ← positiveScalar (after.get "maxDeltaT".toList) "maxDeltaT".toList
      let limit ← positiveScalar
        ((original.get "maxDeltaT".toList).or (original.get "deltaT".toList))
        "initial timestep limit".toList
      if cap > limit then .error .adaptiveCap else .ok ()
    else .ok ()

/-- The check of a changed scalar entry against its previous and its initial value. -/
def checkReduction (before after original : Entries) (entry : Text) : Except ApprovalError Unit := do
  let newValue ← positiveScalar (after.get entry) entry
  let onlyWithDeltaT := entry = "maxDeltaT".toList
  let prior := if onlyWithDeltaT then orElse (before.get entry) (before.get "deltaT".toList)
    else before.get entry
  let initial := if onlyWithDeltaT then orElse (original.get entry) (original.get "deltaT".toList)
    else original.get entry
  let previous ← positiveScalar prior ("previous ".toList ++ entry)
  let initialValue ← positiveScalar initial ("initial ".toList ++ entry)
  if newValue > min previous initialValue then .error (.notReduced entry) else .ok ()

/-- One turn of the loop over the changed entries. -/
def checkControlEntry (before after original : Entries) (entry : Text) :
    Except ApprovalError Unit :=
  if entry = "adjustTimeStep".toList then checkAdjustTimeStep after original
  else checkReduction before after original entry

/-- The heads of the protected entry paths: `entry.split(".", 1)[0]`. -/
def frozenHeads (protectedEntries : List Text) : List Text :=
  protectedEntries.map fun entry => (entry.splitOn '.').headD []

/-- The `controlDict` branch of `check_repair_delta`. -/
def checkControlDict (protectedEntries : List Text) (current proposed baseline : Text) :
    Except ApprovalError Unit :=
  let (before, completeBefore) := topLevelEntryPayloads current
  let (after, completeAfter) := topLevelEntryPayloads proposed
  if !completeBefore || !completeAfter then .error .incompleteControlDict
  else
    let changed := changedEntries before after
    let frozen := changed.filter (· ∈ frozenHeads protectedEntries)
    if frozen ≠ [] then .error (.frozenControlEntries frozen)
    else
      let forbidden := changed.filter (· ∉ runtimeControlDictMutableEntries)
      if forbidden ≠ [] then .error (.unauthorizedEntries forbidden)
      else
        let (original, completeOriginal) := topLevelEntryPayloads baseline
        if !completeOriginal then .error .unresolvedLimits
        else changed.forM (checkControlEntry before after original)

/-- The numerical dictionary branch of `check_repair_delta`, for one protected entry. -/
def checkFrozenEntry (path current proposed entry : Text) : Except ApprovalError Unit :=
  match literalEntryPayload current entry, literalEntryPayload proposed entry with
  | some before, some after =>
    if canonicalPayload (some before) ≠ canonicalPayload (some after) then
      .error (.frozenEntry path entry)
    else .ok ()
  | _, _ => .error (.unresolvedEntry path entry)

/-! ### Repair deltas -/

/-- The three maps of an approval at one path. -/
structure PathAuthority where
  /-- `authorized_repair_hashes.get(path)` -/
  hash : Option Digest
  /-- `repair_baselines.get(path)` -/
  baseline : Option Text
  /-- `authorized_repair_base_hashes.get(path)` -/
  baseHash : Option Digest

/-- The working copies of `check_repair_delta`. -/
structure RepairMaps where
  hashes : Dict Text Digest
  baselines : Dict Text Text
  baseHashes : Dict Text Digest

namespace RepairMaps

/-- The maps at one path. -/
def authority (maps : RepairMaps) (path : Text) : PathAuthority where
  hash := maps.hashes.get path
  baseline := maps.baselines.get path
  baseHash := maps.baseHashes.get path

/-- The assignments at the end of one turn of the loop. -/
def authorize (maps : RepairMaps) (kind : RepairKind) (path current proposed : Text) :
    RepairMaps where
  hashes := maps.hashes.insert path ⟨encode proposed⟩
  baselines := match kind with
    | .numericalDictionary => maps.baselines
    | .controlDict => maps.baselines.setDefault path current
  baseHashes := maps.baseHashes.insert path ⟨encode current⟩

end RepairMaps

/-- The text `check_repair_delta` reads for a path. -/
def repairText (w : CaseWorkspace) (path : Text) : Except ApprovalError Text :=
  match w.readText path (w.maxFileBytes + 1) with
  | .ok current => .ok current
  | .error (.missing _) => .error (.cannotInspect path)
  | .error e => .error (.workspace e)

namespace ExecutionApproval

variable (approval : ExecutionApproval)

/-- The maps of the approval. -/
def repairMaps : RepairMaps where
  hashes := approval.authorizedRepairHashes
  baselines := approval.repairBaselines
  baseHashes := approval.authorizedRepairBaseHashes

/-- The current content is the approved one, the last authorized one, or the one the same
candidate was authorized on before. -/
def KnownBaseline (a : PathAuthority) (path current proposed : Text) : Prop :=
  some (⟨encode current⟩ : Digest) = approval.approvedFiles.get path ∨
    some (⟨encode current⟩ : Digest) = a.hash ∨
    (some (⟨encode proposed⟩ : Digest) = a.hash ∧ some (⟨encode current⟩ : Digest) = a.baseHash)

instance (a : PathAuthority) (path current proposed : Text) :
    Decidable (approval.KnownBaseline a path current proposed) :=
  inferInstanceAs (Decidable (_ ∨ _ ∨ _ ∧ _))

/-- The checks on a changed text. -/
def checkChange (kind : RepairKind) (path current proposed baseline : Text) :
    Except ApprovalError Unit :=
  let protectedEntries := (approval.protectedRepairEntries.get path).getD []
  match kind with
  | .numericalDictionary => protectedEntries.forM (checkFrozenEntry path current proposed)
  | .controlDict => checkControlDict protectedEntries current proposed baseline

/-- One turn of the loop of `check_repair_delta`. -/
def repairPath (w : CaseWorkspace) (maps : RepairMaps) (path proposed : Text) :
    Except ApprovalError RepairMaps :=
  match runtimeRepairPathKind path with
  | none => .error (.outsideAuthorization path)
  | some kind =>
    match repairText w path with
    | .error e => .error e
    | .ok current =>
      if ¬ approval.KnownBaseline (maps.authority path) path current proposed then
        .error (.unapprovedBaseline path)
      else if proposed = current then .ok maps
      else if path ∈ approval.protectedRepairFiles then .error (.frozenFile path)
      else
        match approval.checkChange kind path current proposed
            ((maps.baselines.get path).getD current) with
        | .error e => .error e
        | .ok () => .ok (maps.authorize kind path current proposed)

/-- The loop of `check_repair_delta`. -/
def repairPaths (w : CaseWorkspace) (maps : RepairMaps) :
    List (Text × Text) → Except ApprovalError RepairMaps
  | [] => .ok maps
  | (path, proposed) :: changed =>
    match approval.repairPath w maps path proposed with
    | .error e => .error e
    | .ok maps' => repairPaths w maps' changed

/-- The approval with other maps. -/
def withRepairMaps (maps : RepairMaps) : ExecutionApproval :=
  { approval with
    authorizedRepairHashes := maps.hashes
    repairBaselines := maps.baselines
    authorizedRepairBaseHashes := maps.baseHashes }

/-- `check_repair_delta`. -/
def checkRepairDelta (w : CaseWorkspace) (changedFiles : Dict Text Text) :
    Except ApprovalError ExecutionApproval :=
  (approval.repairPaths w approval.repairMaps changedFiles.items).map approval.withRepairMaps

/-- The paths whose current digest is not the approved one. -/
def changedPaths (current : Dict Text Digest) : List Text :=
  ((current.keys ++ approval.approvedFiles.keys).dedup).filter fun p =>
    current.get p ≠ approval.approvedFiles.get p

/-- A changed path is in the authorized state. -/
def AllowedChange (current : Dict Text Digest) (path : Text) : Prop :=
  (runtimeRepairPathKind path).isSome ∧ (current.get path).isSome ∧
    approval.authorizedRepairHashes.get path = current.get path

instance (current : Dict Text Digest) (path : Text) :
    Decidable (approval.AllowedChange current path) :=
  inferInstanceAs (Decidable (_ ∧ _ ∧ _))

/-- `check_repair_files`. -/
def checkRepairFiles (caseSeal : CaseSeal) : Except ApprovalError Unit :=
  let current : Dict Text Digest := .ofItems (caseSeal.files.map fun x => (x.path, x.sha256))
  let outside := (approval.changedPaths current).filter fun p => ¬ approval.AllowedChange current p
  if outside ≠ [] then .error (.filesOutsideAuthorization outside) else .ok ()

end ExecutionApproval
end Contracts
end OpenFoamAgent
