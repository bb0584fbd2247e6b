/-
# Dispatched case edits

`_dispatch_tool_action_impl` of `engineering/agent.py` for the write, patch and
delete actions: the policy of the runtime phase, the guards that refuse an edit,
the edit itself and what follows it.

A write whose path and content the registry of committed texts holds is taken
as done, and a delete whose path the registry of committed drops holds likewise;
the entry is consumed. Every edit appends exactly one event, unless an
exception leaves the dispatcher.
-/
import OpenFoamAgent.Engineering.Controller

namespace OpenFoamAgent
namespace Engineering

open Python Schemas Workspace Contracts

/-- The phases an edit is dispatched in. -/
inductive Phase where
  | prepare | runtimeRepair
  deriving DecidableEq

/-- `WriteCaseFileAction`, `PatchCaseFileAction` and `DeleteCaseFileAction`. -/
inductive CaseAction where
  | write (path content : Text)
  | patch (path old new : Text)
  | delete (path : Text)
  deriving DecidableEq

namespace CaseAction

/-- `action.path`, or `action.patch.path`. -/
def path : CaseAction → Text
  | write path _ | patch path _ _ | delete path => path

/-- `action.type`. -/
def type : CaseAction → Text
  | write .. => "write_case_file".toList
  | patch .. => "patch_case_file".toList
  | delete .. => "delete_case_file".toList

/-- The summary of the event of a successful action. -/
def doneSummary : CaseAction → EventSummary
  | write path _ => .wrote path
  | patch path .. => .patched path
  | delete path => .deleted path

/-- The word for the action in the summary of a refusal. -/
def editWord : CaseAction → Text
  | write .. => "edit".toList
  | patch .. => "patch".toList
  | delete .. => "delete".toList

/-- The write goes below `postprocessConfig/`. -/
def reserved : CaseAction → Bool
  | write path _ => "postprocessConfig/".toList.isPrefixOf path
  | _ => false

/-- A failed event. -/
def failed (a : CaseAction) (summary : EventSummary) : EngineeringEvent where
  actionType := a.type
  success := false
  summary := summary

/-- A successful event. -/
def succeeded (a : CaseAction) (digest : Option Digest) : EngineeringEvent where
  actionType := a.type
  success := true
  summary := a.doneSummary
  artifactSha256 := digest

end CaseAction

/-! ### Paths -/

/-- `PurePosixPath(path).parts`: an absolute path has its root as first part. -/
def purePosixParts (path : Text) : List Text :=
  if "///".toList.isPrefixOf path then "/".toList :: pathParts path
  else if "//".toList.isPrefixOf path then "//".toList :: pathParts path
  else if "/".toList.isPrefixOf path then "/".toList :: pathParts path
  else pathParts path

/-- `PurePosixPath(path).name`. -/
def purePosixName (path : Text) : Text := (pathParts path).getLastD []

/-- The names `is_mesh_affecting_path` looks for below `system/`. -/
def meshDictionaries : List Text :=
  ["blockMeshDict".toList, "snappyHexMeshDict".toList, "surfaceFeatureExtractDict".toList,
    "surfaceFeaturesDict".toList, "createPatchDict".toList, "topoSetDict".toList,
    "extrudeMeshDict".toList, "decomposeParDict".toList, "meshQualityDict".toList]

/-- `_MESH_AFFECTING_EXACT_PATHS`. -/
def meshAffectingExactPaths : List Text :=
  ["system/blockMeshDict".toList, "system/surfaceFeatureExtractDict".toList,
    "system/surfaceFeaturesDict".toList, "system/snappyHexMeshDict".toList,
    "system/createPatchDict".toList]

/-- `_MESH_AFFECTING_PREFIXES`. -/
def meshAffectingPrefixes : List Text :=
  ["constant/polyMesh/".toList, "constant/triSurface/".toList]

/-- `_MESH_GEOMETRY_SUFFIXES`. -/
def meshGeometrySuffixes : List Text :=
  [".stl".toList, ".obj".toList, ".emesh".toList, ".vtk".toList, ".vtp".toList, ".off".toList,
    ".nas".toList, ".bdf".toList]

/-- `Path(name).suffix`: from the last dot on, unless that is the first or the last character. -/
def suffix (name : Text) : Text :=
  let tail := name.reverse.takeWhile (· != '.')
  if tail = [] ∨ name.length ≤ tail.length + 1 then [] else '.' :: tail.reverse

/-- `is_mesh_affecting_path`. The texts with no parts are those that raise at `parts[0]`. -/
def isMeshAffectingPath (relativeText : Text) : Except Raised Bool :=
  match CaseWorkspace.normalizedText relativeText with
  | .error e => .error (.rejected (.case (.check e)))
  | .ok n =>
    match pathParts n with
    | [] => .error .uncaught
    | top :: rest =>
      if rest.length ≥ 2 ∧ top = "constant".toList ∧ "polyMesh".toList ∈ rest.take 2 then .ok true
      else if top = "system".toList ∧ rest.getLastD top ∈ meshDictionaries then .ok true
      else if n ∈ meshAffectingExactPaths then .ok true
      else if meshAffectingPrefixes.any fun p => p.isPrefixOf n then .ok true
      else if "constant/".toList.isPrefixOf n then
        .ok (casefold (suffix (rest.getLastD top)) ∈ meshGeometrySuffixes)
      else .ok false

namespace Controller

variable (m : Machine) (c : Controller)

/-! ### The policy of the runtime phase -/

/-- The path is one the dispatcher lets a runtime repair edit. -/
def RuntimePathAdmitted (path : Text) : Prop :=
  (purePosixParts path).head? = some "system".toList ∧
    purePosixName path ∈ runtimeNumericalDictionaries

instance (path : Text) : Decidable (RuntimePathAdmitted path) :=
  inferInstanceAs (Decidable (_ ∧ _))

/-- The first checks of the dispatcher on an edit of the runtime phase. -/
def runtimePolicy (path : Text) : Controller × Except Raised Unit :=
  if c.executionApproval = none then (c, .error (.rejected .approvalMissing))
  else if purePosixParts path = [] then (c, .error .uncaught)
  else if RuntimePathAdmitted path then (c, .ok ())
  else ({ c with repairReviewRequired := some .reviewRequired },
    .error (.rejected .reviewRequired))

/-- The policy of a phase. -/
def phasePolicy (phase : Phase) (path : Text) : Controller × Except Raised Unit :=
  match phase with
  | .prepare => (c, .ok ())
  | .runtimeRepair => c.runtimePolicy path

/-! ### The edit -/

/-- The guards before an edit: the summary of the refusal, if there is one. -/
def refusal (a : CaseAction) : Option EventSummary :=
  if a.reserved then some .postprocessReserved
  else if c.MeshBudgetExhausted then
    some (.meshRepairBudget c.policy.maxMeshRepairCycles a.editWord)
  else none

/-- The controller after a mutation of its workspace. -/
def afterMutation {α : Type} : Outcome α → Controller × Except Raised α
  | (workspace, .error e) => ({ c with workspace }, .error (.rejected (.case e)))
  | (workspace, .ok a) => ({ c with workspace }, .ok a)

/-- The registry holds this text for this path. -/
def Precommitted (path content : Text) : Prop :=
  c.precommittedFiles.get path = some ⟨encode content⟩

instance (path content : Text) : Decidable (c.Precommitted path content) :=
  inferInstanceAs (Decidable (_ = _))

/-- The write, or the registry's word for it. -/
def performWrite (path content : Text) : Controller × Except Raised Digest :=
  if c.Precommitted path content then
    ({ c with precommittedFiles := c.precommittedFiles.erase path }, .ok ⟨encode content⟩)
  else c.afterMutation (c.workspace.writeText m.host path content)

/-- The delete, or the registry's word for it. -/
def performDelete (path : Text) : Controller × Except Raised Unit :=
  if path ∈ c.precommittedDrops then
    ({ c with precommittedDrops := c.precommittedDrops.discard path }, .ok ())
  else c.afterMutation (c.workspace.delete m.host path)

/-- The edit: the digest its event records. -/
def perform : CaseAction → Controller × Except Raised (Option Digest)
  | .write path content => (c.performWrite m path content).map id (Except.map some)
  | .patch path old new =>
    (c.afterMutation (c.workspace.patchTextOnce m.host path old new)).map id (Except.map some)
  | .delete path => (c.performDelete m path).map id (Except.map fun _ => none)

/-- What follows an edit. -/
def settle (phase : Phase) (meshAffecting : Bool) : Controller × Except Raised Unit :=
  match c.invalidateMeshDependencies m with
  | .error e => (c, .error e)
  | .ok c₁ =>
    let c₂ := { c₁ with presolveCaseManifest := none, presolveRequiredCaseFiles := none }
    match if meshAffecting then c₂.invalidateMeshDependencies m else .ok c₂ with
    | .error e => (c₂, .error e)
    | .ok c₃ =>
      match phase with
      | .prepare => (c₃, .ok ())
      | .runtimeRepair => ({ c₃ with caseSeal := none }, .ok ())

/-! ### The dispatcher -/

/-- The body of `_dispatch_tool_action_impl` for an edit. -/
def dispatchBody (phase : Phase) (a : CaseAction) : Controller × Except Raised EngineeringEvent :=
  match c.phasePolicy phase a.path with
  | (c₁, .error e) => (c₁, .error e)
  | (c₁, .ok ()) =>
    match c₁.refusal a with
    | some summary => (c₁, .ok (a.failed summary))
    | none =>
      match isMeshAffectingPath a.path with
      | .error e => (c₁, .error e)
      | .ok meshAffecting =>
        match c₁.perform m a with
        | (c₂, .error e) => (c₂, .error e)
        | (c₂, .ok digest) =>
          match c₂.settle m phase meshAffecting with
          | (c₃, .error e) => (c₃, .error e)
          | (c₃, .ok ()) => (c₃, .ok (a.succeeded digest))

/-- `_dispatch_tool_action`: the event, or `none` when an exception leaves the dispatcher. -/
def dispatch (phase : Phase) (a : CaseAction) : Controller × Option EngineeringEvent :=
  match c.dispatchBody m phase a with
  | (c', .ok event) => (c', some event)
  | (c', .error (.rejected e)) => (c', some (a.failed (.rejected e)))
  | (c', .error .uncaught) => (c', none)

/-- One action dispatched, and its event appended by the caller. -/
def edit (phase : Phase) (a : CaseAction) : Controller :=
  match c.dispatch m phase a with
  | (c', some event) => c'.record event
  | (c', none) => c'

/-! ### What a dispatch does -/

/-- The case and the registry. -/
structure Holdings where
  workspace : CaseWorkspace
  precommittedFiles : Dict Text Digest
  precommittedDrops : OrderedSet Text

/-- The case and the registry of a controller. -/
def holdings : Holdings := ⟨c.workspace, c.precommittedFiles, c.precommittedDrops⟩

/-- The events of the round and what is counted on them are the same. -/
structure SameRound (c c' : Controller) : Prop where
  policy : c'.policy = c.policy
  events : c'.engineeringEvents = c.engineeringEvents
  start : c'.engineeringRoundStartIndex = c.engineeringRoundStartIndex

namespace SameRound

variable {c c' c'' : Controller}

theorem refl (c : Controller) : SameRound c c := ⟨rfl, rfl, rfl⟩

theorem trans (h : SameRound c c') (h' : SameRound c' c'') : SameRound c c'' :=
  ⟨h'.policy.trans h.policy, h'.events.trans h.events, h'.start.trans h.start⟩

theorem meshRepairStatus (h : SameRound c c') : c'.meshRepairStatus = c.meshRepairStatus := by
  unfold Controller.meshRepairStatus currentRoundEvents
  rw [h.events, h.start]

end SameRound

variable {m : Machine} {c c' : Controller} {phase : Phase} {a : CaseAction} {path : Text}

/-- The policy of a phase is met. -/
def PolicyAdmits (c : Controller) (phase : Phase) (path : Text) : Prop :=
  phase = .runtimeRepair → c.executionApproval.isSome ∧ RuntimePathAdmitted path

instance (c : Controller) (phase : Phase) (path : Text) : Decidable (c.PolicyAdmits phase path) :=
  inferInstanceAs (Decidable (_ → _))

theorem phasePolicy_frame (c : Controller) (phase : Phase) (path : Text) :
    (c.phasePolicy phase path).1.holdings = c.holdings ∧
      SameRound c (c.phasePolicy phase path).1 ∧
      (c.phasePolicy phase path).1.executionApproval = c.executionApproval := by
  cases phase with
  | prepare => exact ⟨rfl, .refl c, rfl⟩
  | runtimeRepair =>
    unfold phasePolicy runtimePolicy
    split_ifs <;> exact ⟨rfl, ⟨rfl, rfl, rfl⟩, rfl⟩

theorem phasePolicy_of_admits (h : c.PolicyAdmits phase path) :
    c.phasePolicy phase path = (c, .ok ()) := by
  cases phase with
  | prepare => rfl
  | runtimeRepair =>
    obtain ⟨happroval, hpath⟩ := h rfl
    have hparts : purePosixParts path ≠ [] := by
      intro hnil
      have hhead := hpath.1
      rw [hnil] at hhead
      cases hhead
    unfold phasePolicy runtimePolicy
    rw [if_neg (Option.isSome_iff_ne_none.1 happroval), if_neg hparts, if_pos hpath]

theorem phasePolicy_of_not_admits (h : ¬ c.PolicyAdmits phase path) :
    ∃ c₁ e, c.phasePolicy phase path = (c₁, .error e) := by
  cases phase with
  | prepare => exact absurd (fun hphase => by cases hphase) h
  | runtimeRepair =>
    unfold phasePolicy runtimePolicy
    split_ifs with happroval hparts hpath
    · exact ⟨_, _, rfl⟩
    · exact ⟨_, _, rfl⟩
    · exact absurd (fun _ => ⟨Option.isSome_iff_ne_none.2 happroval, hpath⟩) h
    · exact ⟨_, _, rfl⟩

/-! ### Stale mesh evidence -/

/-- Some recorded mesh scope is found stale. -/
def MeshStale (m : Machine) (c : Controller) : Prop := ∃ key stale, c.staleMesh m = .ok (key :: stale)

theorem invalidateMeshDependencies_eq_ok (h : c.invalidateMeshDependencies m = .ok c') :
    (c.staleMesh m = .ok [] ∧ c' = c) ∨
      ∃ key stale, c.staleMesh m = .ok (key :: stale) ∧ c' = c.dropMeshEvidence (key :: stale) := by
  unfold invalidateMeshDependencies at h
  split at h
  · cases h
  · rename_i hnil
    cases h
    exact .inl ⟨hnil, rfl⟩
  · rename_i stale hne hstale
    cases h
    cases stale with
    | nil => exact absurd rfl hne
    | cons key stale => exact .inr ⟨key, stale, hstale, rfl⟩

theorem invalidateMeshDependencies_isOk :
    (c.invalidateMeshDependencies m).isOk ↔ (c.staleMesh m).isOk := by
  unfold invalidateMeshDependencies
  cases c.staleMesh m with
  | error e => exact Iff.rfl
  | ok stale => cases stale <;> exact ⟨fun _ => rfl, fun _ => rfl⟩

theorem staleScopes_isOk (m : Machine) (w : CaseWorkspace) (scopes : Dict Text ExecutionScope)
    (recorded : List (Text × MeshDigest)) :
    (staleScopes m w scopes recorded).isOk ↔
      ∀ r ∈ recorded, ∀ scope, scopes.get r.1 = some scope → (m.scopeMeshDigest w scope).isOk := by
  induction recorded with
  | nil => exact ⟨fun _ _ hr => absurd hr List.not_mem_nil, fun _ => rfl⟩
  | cons r recorded ih =>
    obtain ⟨key, old⟩ := r
    have hmap : ∀ x : Except Raised (List Text), (x.map (key :: ·)).isOk = x.isOk := by
      intro x
      cases x <;> rfl
    rw [List.forall_mem_cons, ← ih, staleScopes]
    split
    · rename_i hnone
      rw [hmap]
      exact ⟨fun h => ⟨fun scope hs => absurd (hnone.symm.trans hs) (by simp), h⟩, fun h => h.2⟩
    · rename_i scope hscope
      split
      · rename_i e herr
        refine ⟨fun h => absurd h (by simp [Except.isOk, Except.toBool]), fun h => ?_⟩
        have hok := h.1 scope hscope
        rw [herr] at hok
        cases hok
      · rename_i digest hdigest
        have hhead : ∀ s, scopes.get key = some s → (m.scopeMeshDigest w s).isOk := by
          intro s hs
          obtain rfl := Option.some.inj (hscope.symm.trans hs)
          rw [hdigest]
          rfl
        split_ifs
        · exact ⟨fun h => ⟨hhead, h⟩, fun h => h.2⟩
        · rw [hmap]
          exact ⟨fun h => ⟨hhead, h⟩, fun h => h.2⟩

theorem mem_items_foldl_erase {d : Dict Text MeshDigest} {keys : List Text}
    {r : Text × MeshDigest} (h : r ∈ Dict.items (keys.foldl (fun d key => d.erase key) d)) :
    r ∈ d.items := by
  induction keys generalizing d with
  | nil => exact h
  | cons key keys ih => exact Dict.mem_items.2 (Dict.get_of_get_erase (Dict.mem_items.1 (ih h))).2

/-- Once the stale evidence is gone, no digest of the remaining evidence raises. -/
theorem staleMesh_dropMeshEvidence (stale : List Text) (h : (c.staleMesh m).isOk) :
    ((c.dropMeshEvidence stale).staleMesh m).isOk := by
  have hplan : (c.dropMeshEvidence stale).activeExecutionPlan = c.activeExecutionPlan := rfl
  unfold staleMesh at h ⊢
  rw [hplan]
  cases hactive : c.activeExecutionPlan with
  | none => rfl
  | some plan =>
    rw [hactive] at h
    refine (staleScopes_isOk m _ _ _).2 fun r hr => ?_
    exact (staleScopes_isOk m c.workspace _ _).1 h r (mem_items_foldl_erase hr)

/-- What an edit leaves alone when it settles. -/
theorem invalidateMeshDependencies_frame (h : c.invalidateMeshDependencies m = .ok c') :
    c'.holdings = c.holdings ∧ SameRound c c' := by
  rcases invalidateMeshDependencies_eq_ok h with ⟨-, rfl⟩ | ⟨key, stale, -, rfl⟩
  · exact ⟨rfl, .refl _⟩
  · exact ⟨rfl, rfl, rfl, rfl⟩

theorem settle_frame (m : Machine) (c : Controller) (phase : Phase) (b : Bool) :
    (c.settle m phase b).1.holdings = c.holdings ∧ SameRound c (c.settle m phase b).1 := by
  unfold settle
  split
  · exact ⟨rfl, .refl c⟩
  · rename_i c₁ h₁
    obtain ⟨hh₁, hr₁⟩ := invalidateMeshDependencies_frame h₁
    have hr₂ : SameRound c { c₁ with presolveCaseManifest := none, presolveRequiredCaseFiles := none } :=
      hr₁.trans ⟨rfl, rfl, rfl⟩
    dsimp only
    split
    · exact ⟨hh₁, hr₂⟩
    · rename_i c₃ h₃
      have hframe : c₃.holdings = c₁.holdings ∧ SameRound
          { c₁ with presolveCaseManifest := none, presolveRequiredCaseFiles := none } c₃ := by
        split_ifs at h₃
        · exact invalidateMeshDependencies_frame h₃
        · cases h₃
          exact ⟨rfl, .refl _⟩
      split
      · exact ⟨hframe.1.trans hh₁, hr₂.trans hframe.2⟩
      · exact ⟨hframe.1.trans hh₁, (hr₂.trans hframe.2).trans ⟨rfl, rfl, rfl⟩⟩

/-- An edit settles unless a digest of the recorded mesh evidence raises. -/
theorem settle_isOk (m : Machine) (c : Controller) (phase : Phase) (b : Bool) :
    (c.settle m phase b).2.isOk ↔ (c.staleMesh m).isOk := by
  rw [← invalidateMeshDependencies_isOk]
  unfold settle
  split
  · rename_i e herr
    rw [herr]
    exact Iff.rfl
  · rename_i c₁ h₁
    have hok : (c.staleMesh m).isOk := invalidateMeshDependencies_isOk.1 (by rw [h₁]; rfl)
    have hok₁ : (c₁.staleMesh m).isOk := by
      rcases invalidateMeshDependencies_eq_ok h₁ with ⟨-, rfl⟩ | ⟨key, stale, -, rfl⟩
      · exact hok
      · exact staleMesh_dropMeshEvidence _ hok
    rw [h₁]
    refine ⟨fun _ => rfl, fun _ => ?_⟩
    dsimp only
    split
    · rename_i e herr
      exfalso
      split_ifs at herr
      have hok₂ : (invalidateMeshDependencies m
          { c₁ with presolveCaseManifest := none, presolveRequiredCaseFiles := none }).isOk :=
        invalidateMeshDependencies_isOk.2 hok₁
      rw [herr] at hok₂
      cases hok₂
    · split <;> rfl

/-- Unless a recorded mesh scope is stale, settling an edit forgets the pre-solve verdict and
the seal only. -/
theorem settle_of_not_stale (phase : Phase) (b : Bool) (h : ¬ c.MeshStale m) :
    (c.settle m phase b).1 = { c with
      presolveCaseManifest := (c.settle m phase b).1.presolveCaseManifest
      presolveRequiredCaseFiles := (c.settle m phase b).1.presolveRequiredCaseFiles
      caseSeal := (c.settle m phase b).1.caseSeal } := by
  have hkeep : ∀ {c₁ c₂ : Controller}, c₁.staleMesh m = c.staleMesh m →
      c₁.invalidateMeshDependencies m = .ok c₂ → c₂ = c₁ := by
    intro c₁ c₂ heq hinv
    rcases invalidateMeshDependencies_eq_ok hinv with ⟨-, rfl⟩ | ⟨key, stale, hstale, -⟩
    · rfl
    · exact absurd ⟨key, stale, heq.symm.trans hstale⟩ h
  unfold settle
  split
  · rfl
  · rename_i c₁ h₁
    obtain rfl := hkeep rfl h₁
    dsimp only
    split
    · rfl
    · rename_i c₃ h₃
      have h₃' : c₃ = { c₁ with presolveCaseManifest := none, presolveRequiredCaseFiles := none } := by
        split_ifs at h₃
        · exact hkeep (by rfl) h₃
        · cases h₃; rfl
      rw [h₃']
      cases phase <;> rfl

/-- Stale mesh evidence takes the approval. -/
theorem settle_approval_of_stale (phase : Phase) (b : Bool) (h : c.MeshStale m) :
    (c.settle m phase b).1.executionApproval = none := by
  obtain ⟨key, stale, hstale⟩ := h
  have hdrop : ∀ {c₁ c₂ : Controller}, c₁.executionApproval = none →
      c₁.invalidateMeshDependencies m = .ok c₂ → c₂.executionApproval = none := by
    intro c₁ c₂ hnone hinv
    rcases invalidateMeshDependencies_eq_ok hinv with ⟨-, rfl⟩ | ⟨_, _, -, rfl⟩
    · exact hnone
    · rfl
  have h₁ : c.invalidateMeshDependencies m = .ok (c.dropMeshEvidence (key :: stale)) := by
    unfold invalidateMeshDependencies
    rw [hstale]
  unfold settle
  rw [h₁]
  dsimp only
  split
  · rfl
  · rename_i c₃ h₃
    have h₃' : c₃.executionApproval = none := by
      split_ifs at h₃
      · exact hdrop (by rfl) h₃
      · cases h₃; rfl
    split <;> exact h₃'

/-! ### The dispatcher's verdict -/

/-- Only the case and the registry differ. -/
def SameBeside (c c' : Controller) : Prop :=
  c' = { c with
    workspace := c'.workspace
    precommittedFiles := c'.precommittedFiles
    precommittedDrops := c'.precommittedDrops }

theorem SameBeside.round (h : SameBeside c c') : SameRound c c' := by
  rw [h]
  exact ⟨rfl, rfl, rfl⟩

theorem SameBeside.approval (h : SameBeside c c') : c'.executionApproval = c.executionApproval := by
  rw [h]

theorem afterMutation_sameBeside {α : Type} (c : Controller) (o : Outcome α) :
    SameBeside c (c.afterMutation o).1 := by
  obtain ⟨w, r⟩ := o
  cases r <;> rfl

theorem performWrite_sameBeside (m : Machine) (c : Controller) (path content : Text) :
    SameBeside c (c.performWrite m path content).1 := by
  unfold performWrite
  split_ifs
  · rfl
  · exact afterMutation_sameBeside c _

theorem performDelete_sameBeside (m : Machine) (c : Controller) (path : Text) :
    SameBeside c (c.performDelete m path).1 := by
  unfold performDelete
  split_ifs
  · rfl
  · exact afterMutation_sameBeside c _

theorem perform_sameBeside (m : Machine) (c : Controller) (a : CaseAction) :
    SameBeside c (c.perform m a).1 := by
  cases a with
  | write path content => exact performWrite_sameBeside m c path content
  | patch path old new =>
    exact afterMutation_sameBeside c (c.workspace.patchTextOnce m.host path old new)
  | delete path => exact performDelete_sameBeside m c path

/-- The dispatcher lets the edit through and reports it as done. -/
structure Admits (m : Machine) (c : Controller) (phase : Phase) (a : CaseAction) : Prop where
  /-- The policy of the phase is met. -/
  policy : c.PolicyAdmits phase a.path
  /-- The path is not reserved, and the mesh repair budget is not exhausted. -/
  guards : c.refusal a = none
  /-- The path has a part, and no backslash. -/
  named : (isMeshAffectingPath a.path).isOk
  /-- The registry answers for the edit, or the workspace makes it. -/
  performed : (c.perform m a).2.isOk
  /-- No digest of the recorded mesh evidence raises. -/
  digested : ((c.perform m a).1.staleMesh m).isOk

theorem refusal_eq_none_iff :
    c.refusal a = none ↔ a.reserved = false ∧ ¬ c.MeshBudgetExhausted := by
  unfold refusal
  split_ifs with hreserved hbudget
  · simp [hreserved]
  · simp [hbudget]
  · simp [hreserved, hbudget]

theorem perform_precommitted {content : Text} (h : c.Precommitted path content) :
    c.perform m (.write path content) =
      ({ c with precommittedFiles := c.precommittedFiles.erase path },
        .ok (some ⟨encode content⟩)) := by
  show (c.performWrite m path content).map id (Except.map some) = _
  unfold performWrite
  rw [if_pos h]
  rfl

/-- No success is reported: the dispatcher raises, or the event is a failed one. -/
def NotReported (a : CaseAction) (report : Option EngineeringEvent) : Prop :=
  report = none ∨ ∃ summary, report = some (a.failed summary)

/-- What a dispatch can do: the state it leaves and its report. -/
inductive Dispatched (m : Machine) (c : Controller) (phase : Phase) (a : CaseAction) :
    Controller → Option EngineeringEvent → Prop where
  | unauthorized {report : Option EngineeringEvent} (hpolicy : ¬ c.PolicyAdmits phase a.path)
      (hreport : NotReported a report) :
      Dispatched m c phase a (c.phasePolicy phase a.path).1 report
  | refused {summary : EventSummary} (hpolicy : c.PolicyAdmits phase a.path)
      (hrefusal : c.refusal a = some summary) :
      Dispatched m c phase a c (some (a.failed summary))
  | unnamed {report : Option EngineeringEvent} (hpolicy : c.PolicyAdmits phase a.path)
      (hrefusal : c.refusal a = none) (hnamed : ¬ (isMeshAffectingPath a.path).isOk)
      (hreport : NotReported a report) : Dispatched m c phase a c report
  | notPerformed {report : Option EngineeringEvent} (hpolicy : c.PolicyAdmits phase a.path)
      (hrefusal : c.refusal a = none) (hperformed : ¬ (c.perform m a).2.isOk)
      (hreport : NotReported a report) : Dispatched m c phase a (c.perform m a).1 report
  | notSettled {report : Option EngineeringEvent} (meshAffecting : Bool)
      (hpolicy : c.PolicyAdmits phase a.path) (hrefusal : c.refusal a = none)
      (hperformed : (c.perform m a).2.isOk) (hdigested : ¬ ((c.perform m a).1.staleMesh m).isOk)
      (hreport : NotReported a report) :
      Dispatched m c phase a ((c.perform m a).1.settle m phase meshAffecting).1 report
  | done {digest : Option Digest} (meshAffecting : Bool) (hadmits : c.Admits m phase a)
      (hdigest : (c.perform m a).2 = .ok digest) :
      Dispatched m c phase a ((c.perform m a).1.settle m phase meshAffecting).1
        (some (a.succeeded digest))

theorem notReported_dispatch {c₁ : Controller} {e : Raised}
    (h : c.dispatchBody m phase a = (c₁, .error e)) :
    (c.dispatch m phase a).1 = c₁ ∧ NotReported a (c.dispatch m phase a).2 := by
  unfold dispatch
  rw [h]
  cases e with
  | rejected e => exact ⟨rfl, .inr ⟨_, rfl⟩⟩
  | uncaught => exact ⟨rfl, .inl rfl⟩

theorem dispatchBody_of_policy {c₁ : Controller} {e : Raised}
    (h : c.phasePolicy phase a.path = (c₁, .error e)) :
    c.dispatchBody m phase a = (c₁, .error e) := by
  unfold dispatchBody
  rw [h]

theorem dispatchBody_of_refusal {summary : EventSummary} (hpolicy : c.PolicyAdmits phase a.path)
    (h : c.refusal a = some summary) :
    c.dispatchBody m phase a = (c, .ok (a.failed summary)) := by
  unfold dispatchBody
  rw [phasePolicy_of_admits hpolicy]
  dsimp only
  rw [h]

theorem dispatchBody_of_unnamed {e : Raised} (hpolicy : c.PolicyAdmits phase a.path)
    (hrefusal : c.refusal a = none) (h : isMeshAffectingPath a.path = .error e) :
    c.dispatchBody m phase a = (c, .error e) := by
  unfold dispatchBody
  rw [phasePolicy_of_admits hpolicy]
  dsimp only
  rw [hrefusal]
  dsimp only
  rw [h]

theorem dispatchBody_of_guards {meshAffecting : Bool} (hpolicy : c.PolicyAdmits phase a.path)
    (hrefusal : c.refusal a = none) (h : isMeshAffectingPath a.path = .ok meshAffecting) :
    c.dispatchBody m phase a =
      match c.perform m a with
      | (c₂, .error e) => (c₂, .error e)
      | (c₂, .ok digest) =>
        match c₂.settle m phase meshAffecting with
        | (c₃, .error e) => (c₃, .error e)
        | (c₃, .ok ()) => (c₃, .ok (a.succeeded digest)) := by
  unfold dispatchBody
  rw [phasePolicy_of_admits hpolicy]
  dsimp only
  rw [hrefusal]
  dsimp only
  rw [h]

/-- The inversion of a dispatch. -/
theorem dispatched (m : Machine) (c : Controller) (phase : Phase) (a : CaseAction) :
    Dispatched m c phase a (c.dispatch m phase a).1 (c.dispatch m phase a).2 := by
  by_cases hpolicy : c.PolicyAdmits phase a.path
  swap
  · obtain ⟨c₁, e, heq⟩ := phasePolicy_of_not_admits hpolicy
    obtain ⟨hd, hreport⟩ := notReported_dispatch (m := m) (dispatchBody_of_policy heq)
    have hstate : (c.dispatch m phase a).1 = (c.phasePolicy phase a.path).1 := by rw [hd, heq]
    rw [hstate]
    exact .unauthorized hpolicy hreport
  cases hrefusal : c.refusal a with
  | some summary =>
    have hd : c.dispatch m phase a = (c, some (a.failed summary)) := by
      unfold dispatch
      rw [dispatchBody_of_refusal hpolicy hrefusal]
    rw [hd]
    exact .refused hpolicy hrefusal
  | none =>
    cases hmesh : isMeshAffectingPath a.path with
    | error e =>
      obtain ⟨hd, hreport⟩ := notReported_dispatch (m := m) (dispatchBody_of_unnamed hpolicy hrefusal hmesh)
      rw [hd]
      exact .unnamed hpolicy hrefusal (by rw [hmesh]; exact Bool.false_ne_true) hreport
    | ok meshAffecting =>
      have hbody := dispatchBody_of_guards (m := m) hpolicy hrefusal hmesh
      cases hperform : (c.perform m a).2 with
      | error e =>
        have hp : c.perform m a = ((c.perform m a).1, .error e) := by rw [← hperform]
        rw [hp] at hbody
        obtain ⟨hd, hreport⟩ := notReported_dispatch hbody
        rw [hd]
        exact .notPerformed hpolicy hrefusal (by rw [hperform]; exact Bool.false_ne_true) hreport
      | ok digest =>
        have hp : c.perform m a = ((c.perform m a).1, .ok digest) := by rw [← hperform]
        have hsettle := settle_isOk m (c.perform m a).1 phase meshAffecting
        rw [hp] at hbody
        dsimp only at hbody
        cases hs : ((c.perform m a).1.settle m phase meshAffecting).2 with
        | error e =>
          have hq : (c.perform m a).1.settle m phase meshAffecting =
              (((c.perform m a).1.settle m phase meshAffecting).1, .error e) := by rw [← hs]
          rw [hs] at hsettle
          rw [hq] at hbody
          obtain ⟨hd, hreport⟩ := notReported_dispatch hbody
          rw [hd]
          exact .notSettled meshAffecting hpolicy hrefusal (by rw [hperform]; rfl)
            (fun h => absurd (hsettle.2 h) Bool.false_ne_true) hreport
        | ok _ =>
          have hq : (c.perform m a).1.settle m phase meshAffecting =
              (((c.perform m a).1.settle m phase meshAffecting).1, .ok ()) := by rw [← hs]
          rw [hs] at hsettle
          rw [hq] at hbody
          have hd : c.dispatch m phase a =
              (((c.perform m a).1.settle m phase meshAffecting).1, some (a.succeeded digest)) := by
            unfold dispatch
            rw [hbody]
          rw [hd]
          exact .done meshAffecting ⟨hpolicy, hrefusal, by rw [hmesh]; rfl, by rw [hperform]; rfl,
            hsettle.1 rfl⟩ hperform

/-- The dispatcher reports success exactly when it admits the edit. -/
theorem dispatch_succeeds_iff :
    (∃ event, (c.dispatch m phase a).2 = some event ∧ event.success = true) ↔
      c.Admits m phase a := by
  have hnot : ∀ {report}, NotReported a report → ¬ ∃ event, report = some event ∧ event.success := by
    rintro _ (rfl | ⟨summary, rfl⟩) ⟨event, hevent, hsuccess⟩
    · cases hevent
    · cases hevent
      cases hsuccess
  have h := dispatched m c phase a
  generalize c.dispatch m phase a = r at h ⊢
  obtain ⟨c', report⟩ := r
  dsimp only at h ⊢
  cases h with
  | unauthorized hpolicy hreport =>
    exact ⟨fun h => absurd h (hnot hreport), fun h => absurd h.policy hpolicy⟩
  | refused hpolicy hrefusal =>
    exact ⟨fun h => absurd h (hnot (.inr ⟨_, rfl⟩)),
      fun h => absurd (hrefusal.symm.trans h.guards) (by simp)⟩
  | unnamed hpolicy hrefusal hnamed hreport =>
    exact ⟨fun h => absurd h (hnot hreport), fun h => absurd h.named hnamed⟩
  | notPerformed hpolicy hrefusal hperformed hreport =>
    exact ⟨fun h => absurd h (hnot hreport), fun h => absurd h.performed hperformed⟩
  | notSettled meshAffecting hpolicy hrefusal hperformed hdigested hreport =>
    exact ⟨fun h => absurd h (hnot hreport), fun h => absurd h.digested hdigested⟩
  | done meshAffecting hadmits hdigest => exact ⟨fun _ => hadmits, fun _ => ⟨_, rfl, rfl⟩⟩

instance : Decidable (c.Admits m phase a) :=
  decidable_of_iff ((c.dispatch m phase a).2.any fun event => event.success) <| by
    rw [← dispatch_succeeds_iff, Option.any_eq_true]

theorem dispatch_sameRound (m : Machine) (c : Controller) (phase : Phase) (a : CaseAction) :
    SameRound c (c.dispatch m phase a).1 := by
  have hperform := (perform_sameBeside m c a).round
  have hsettle : ∀ b, SameRound c ((c.perform m a).1.settle m phase b).1 := fun b =>
    hperform.trans (settle_frame m _ phase b).2
  have h := dispatched m c phase a
  generalize c.dispatch m phase a = r at h ⊢
  obtain ⟨c', report⟩ := r
  dsimp only at h ⊢
  cases h with
  | unauthorized => exact (phasePolicy_frame c phase a.path).2.1
  | refused => exact .refl c
  | unnamed => exact .refl c
  | notPerformed => exact hperform
  | notSettled meshAffecting => exact hsettle meshAffecting
  | done meshAffecting => exact hsettle meshAffecting

end Controller
end Engineering
end OpenFoamAgent
