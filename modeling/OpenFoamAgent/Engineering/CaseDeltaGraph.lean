/-
# The graph of a case delta

`compile_case_delta_graph` of `engineering/case_delta_graph.py` and
`_stable_dependency_order` of `engineering/case_build_graph.py`: the edits of a
repair or revision are applied to a view of the committed case, checked, and
turned into the files to write, the files to drop and the native commands to run.
Nothing is written here.

Paths are compared as texts throughout: replacements, patches and drops of one
file under two texts are edits of two files to this function.

`validate_foam_file_header` is an argument; it only adds failures, or raises.
-/
import OpenFoamAgent.Engineering.CandidateRepair
import OpenFoamAgent.Engineering.Dispatch
import OpenFoamAgent.Engineering.ExecutionScopes
import OpenFoamAgent.Engineering.MeshDependencies
import OpenFoamAgent.Library.TopologicalOrder

namespace OpenFoamAgent
namespace Engineering

open Python Schemas Workspace

/-! ### Failures and warnings -/

/-- The failures of a delta graph. -/
inductive DeltaFailure where
  /-- `Conflicting replacement content for {path}.` -/
  | conflictingReplacement (path : Text)
  /-- `Case delta cannot patch and replace {path} in the same turn.` -/
  | patchAndReplace (path : Text)
  /-- `Case delta cannot patch and drop {path} in the same turn.` -/
  | patchAndDrop (path : Text)
  /-- `Patch target is too large for exact in-memory repair: {path}` -/
  | patchTooLarge (path : Text)
  /-- `Patch target is absent from the committed case: {path}` -/
  | patchAbsent (path : Text)
  /-- `Patch old text must not be empty: {path}` -/
  | patchEmpty (path : Text)
  /-- `Exact patch requires one match in {path}; observed {count}.` -/
  | patchMatches (path : Text) (count : ℕ)
  /-- `Case delta cannot replace and drop {path} in the same turn.` -/
  | replaceAndDrop (path : Text)
  /-- `Required case manifest would be incomplete after repair: {missing}` -/
  | incompleteManifest (missing : List Text)
  | bundle (e : CheckError)
  /-- `{path}: {failure}` -/
  | header (path failure : Text)
  /-- `Could not compile scope-bound delta consumers: {exc}` -/
  | consumers (e : ScopeError)
  /-- `Could not bind mesh delta to execution scopes: {exc}` -/
  | unboundScopes (e : ScopeError ⊕ MeshValueError)
  /-- `Could not bind native dependency scope for {command}: {exc}` -/
  | unboundOrder (command : Text) (e : ScopeError)
  /-- `Native command dependency graph contains a cycle: {commands}` -/
  | cycle (commands : List Text)
  deriving DecidableEq

/-- The warnings of a delta graph. -/
inductive DeltaWarning where
  /-- `Ignored stale drop hint for absent path: {path}` -/
  | staleDrop (path : Text)
  /-- `Dropped native hint {command}: command is not permitted in {phase} phase.` -/
  | notPermitted (command : Text) (phase : NativePhase)
  /-- `Dropped stale native hint {command}: required input {required} is absent after delta.` -/
  | staleHint (command required : Text)
  /-- `Ignored stale validation hint for absent path after delta: {hinted}` -/
  | staleValidation (path : Text)
  deriving DecidableEq

/-- The exceptions that leave the compilation. -/
inductive DeltaRaise where
  | check (e : CheckError)
  | seal (e : SealError)
  | scope (e : ScopeError)
  /-- The `FoamFileContractError` of the header check. -/
  | header (path : Text)
  deriving DecidableEq

/-- The edits and hints of a repair or revision. -/
structure CaseDelta where
  patches : List CaseFilePatch := []
  replacements : List (Text × Text) := []
  dropPaths : List Text := []
  nativeHints : List NativeOpenFOAMCommand := []
  meshCommands : List Text := []
  validateDictionaries : List Text := []
  surfaceChecks : List Text := []
  validatePreSolve : Bool := true
  phase : NativePhase := .repair

/-- `CaseDeltaGraph`. -/
structure CaseDeltaGraph where
  changedFiles : List (Text × Text)
  dropPaths : List Text
  effectivePaths : List Text
  missingRequiredPaths : List Text
  dictionaryPaths : List Text
  surfacePaths : List Text
  nativePipeline : List NativeOpenFOAMCommand
  validatePreSolve : Bool
  affectedMeshScopeKeys : List Text
  reusedMeshScopeKeys : List Text
  revalidationDomains : List Text
  failures : List DeltaFailure
  warnings : List DeltaWarning
  deriving DecidableEq

/-- `valid`. -/
def CaseDeltaGraph.Valid (graph : CaseDeltaGraph) : Prop := graph.failures = []

/-- An exception of a check, as one of the compilation. -/
def raiseCheck {α : Type} (r : Except CheckError α) : Except DeltaRaise α := r.mapError .check

/-- An exception of the scopes, as one of the compilation. -/
def raiseScope {α : Type} (r : Except ScopeError α) : Except DeltaRaise α := r.mapError .scope

/-! ### The edited files -/

/-- The text of a file in the view of the case. -/
def viewText (data : Bytes) : Text := universalNewlines (decodeReplace data)

/-- A tracked file joins the view. -/
def viewAuthored (w : CaseWorkspace) (view : Dict Text Text) (path : Text) :
    Except CheckError (Dict Text Text) :=
  (w.readText path (w.maxFileBytes + 1)).map fun content => view.insert path content

/-- A required file joins the view, if it exists and no tracked text names it. -/
def viewRequired (w : CaseWorkspace) (view : Dict Text Text) (path : Text) :
    Except CheckError (Dict Text Text) :=
  if path ∈ view then .ok view
  else
    match w.resolveCasePath path true with
    | .error (.missing _) => .ok view
    | .error e => .error e
    | .ok l => .ok (view.insert path (viewText ((w.tree.fileAt l).getD [])))

/-- The view of the committed case: its tracked files, and the required files that exist. -/
def effectiveView (w : CaseWorkspace) (plan : EngineeringPlan) :
    Except CheckError (Dict Text Text) := do
  let authored ← w.listAuthored
  let view ← authored.foldlM (viewAuthored w) ∅
  plan.requiredCaseFiles.foldlM (viewRequired w) view

/-- `effective`, `changed` and `failures` while the delta is normalized. -/
structure Edited where
  effective : Dict Text Text
  changed : List (Text × Text) := []
  failures : List DeltaFailure := []

namespace Edited

/-- `failures.append(failure)`. -/
def fail (s : Edited) (failure : DeltaFailure) : Edited :=
  { s with failures := s.failures ++ [failure] }

/-- One replacement. -/
def replace (s : Edited) (file : Text × Text) : Edited :=
  if (s.changed.lookup file.1).any (· ≠ file.2) then s.fail (.conflictingReplacement file.1)
  else { s with changed := putItem Prod.fst file s.changed }

/-- One patch; `replaced` and `drops` are the paths replaced and dropped. -/
def patch (replaced drops : List Text) (s : Edited) (p : CaseFilePatch) : Edited :=
  if p.path ∈ replaced then s.fail (.patchAndReplace p.path)
  else if p.path ∈ drops then s.fail (.patchAndDrop p.path)
  else
    match s.effective.get p.path with
    | none => s.fail (.patchAbsent p.path)
    | some current =>
      if "\n... [truncated]".toList.isSuffixOf current then s.fail (.patchTooLarge p.path)
      else if p.old = [] then s.fail (.patchEmpty p.path)
      else if count p.old current ≠ 1 then s.fail (.patchMatches p.path (count p.old current))
      else
        let content := replaceOnce p.old p.new current
        { s with
          effective := s.effective.insert p.path content
          changed := putItem Prod.fst (p.path, content) s.changed }

/-- One active drop. -/
def drop (s : Edited) (path : Text) : Edited :=
  let s := if path ∈ s.changed.map Prod.fst then s.fail (.replaceAndDrop path) else s
  { s with effective := s.effective.erase path }

/-- The changed files join the view. -/
def settle (s : Edited) : Edited := { s with effective := s.effective.update s.changed }

end Edited

/-- The drops of a delta that are taken up: those of paths in the view. -/
def activeDrops (view : Dict Text Text) (delta : CaseDelta) : List Text :=
  delta.dropPaths.eraseDups.filter (· ∈ view)

/-- The files after replacements, patches and drops. -/
def normalizeEdits (view : Dict Text Text) (delta : CaseDelta) : Edited :=
  let drops := activeDrops view delta
  let replaced := delta.replacements.foldl Edited.replace { effective := view }
  let patched := delta.patches.foldl (Edited.patch (replaced.changed.map Prod.fst) drops) replaced
  (drops.foldl Edited.drop patched).settle

/-! ### Headers -/

/-- `Path(path).suffix.lower()`. A path with letters outside ASCII is refused by the checks. -/
def lowerSuffix (path : Text) : Text := (suffix (purePosixName path)).map asciiLower

/-- `_NON_DICTIONARY_EXTENSIONS`. -/
def nonDictionaryExtensions : List Text :=
  [".stl".toList, ".obj".toList, ".off".toList, ".vtk".toList, ".vtp".toList, ".csv".toList,
    ".dat".toList, ".emesh".toList, ".gz".toList]

/-- `_SURFACE_EXTENSIONS`. -/
def surfaceExtensions : List Text :=
  [".stl".toList, ".obj".toList, ".off".toList, ".vtk".toList, ".vtp".toList]

/-- `validate_foam_file_header(path, content, expected_class=…).failures`; nothing where it
raises. -/
abbrev HeaderCheck := Text → Text → Option Text → Option (List Text)

/-- The header failures of one changed file. -/
def headerFailures (check : HeaderCheck) (delta : CaseDelta) (file : Text × Text) :
    Except DeltaRaise (List DeltaFailure) :=
  if !delta.validatePreSolve ∨ lowerSuffix file.1 ∈ nonDictionaryExtensions then .ok []
  else
    let expected := if "system/".toList.isPrefixOf file.1 then some "dictionary".toList else none
    match check file.1 file.2 expected with
    | none => .error (.header file.1)
    | some failures => .ok (failures.map (.header file.1))

/-! ### Native commands -/

/-- `_dedupe_native`, behind the commands met before. -/
def dedupeNative : List (Text × List Text) → List NativeOpenFOAMCommand →
    List NativeOpenFOAMCommand
  | _, [] => []
  | seen, item :: items =>
    if seen.contains (commandToken item) then dedupeNative seen items
    else item :: dedupeNative (commandToken item :: seen) items

/-- The hints: the native ones, or else the mesh commands. -/
def hintedCommands (delta : CaseDelta) : Except ScopeError (List NativeOpenFOAMCommand) :=
  if delta.nativeHints ≠ [] then .ok delta.nativeHints
  else
    delta.meshCommands.mapM fun command =>
      if lengthIn 0 160 command && isCommandName command then .ok { command, role := .mesh }
      else .error (.invalidCommand command)

/-- The commands the controller adds itself. -/
def controllerOwned : List Text :=
  ["foamDictionary".toList, "surfaceCheck".toList, "checkMesh".toList]

/-- One hint: it is taken up if it is permitted and its dictionary exists. -/
def admitHint (phase : NativePhase) (paths : List Text)
    (s : List NativeOpenFOAMCommand × List DeltaWarning) (item : NativeOpenFOAMCommand) :
    Except ScopeError (List NativeOpenFOAMCommand × List DeltaWarning) :=
  if item.command ∈ controllerOwned then .ok s
  else if !commandPermitted item.command phase then
    .ok (s.1, s.2 ++ [.notPermitted item.command phase])
  else
    match requiredDictionary item.command item.arguments with
    | .error e => .error e
    | .ok none => .ok (s.1 ++ [item], s.2)
    | .ok (some required) =>
      if required ≠ [] ∧ required ∉ paths then
        .ok (s.1, s.2 ++ [.staleHint item.command required])
      else .ok (s.1 ++ [item], s.2)

/-- A finalizer of the controller. -/
def isFinalizer (item : NativeOpenFOAMCommand) : Bool :=
  (nativeToolContract item.command).controllerFinalizer

/-- `_render_ordering_tokens`. -/
def orderingTokens (plan : EngineeringPlan) (item : NativeOpenFOAMCommand)
    (templates : List OrderingLabel) : Except ScopeError (List Text) :=
  if templates.any fun label => label matches .mesh _ then
    (scopeForNativeArguments plan item.arguments).map fun scope =>
      templates.map fun
        | .shared label => label
        | .mesh stage => "mesh:".toList ++ scopeKey scope ++ ':' :: stage
  else
    .ok <| templates.map fun
      | .shared label => label
      | .mesh stage => "mesh:\x7bscope_key\x7d:".toList ++ stage

/-- The labels a command consumes and produces. -/
def orderingLabels (plan : EngineeringPlan) (item : NativeOpenFOAMCommand) :
    Except ScopeError (List Text × List Text) := do
  let contract := nativeToolContract item.command
  let inputs ← orderingTokens plan item contract.orderingInputs
  let outputs ← orderingTokens plan item contract.orderingOutputs
  return (inputs, outputs)

/-- One command produces what another consumes. -/
def precedes (labels : List (List Text × List Text)) (producer consumer : ℕ) : Bool :=
  producer != consumer &&
    (labels.getD producer ([], [])).2.any (· ∈ (labels.getD consumer ([], [])).1)

/-- `_stable_dependency_order`. -/
def stableDependencyOrder (plan : EngineeringPlan) (items : List NativeOpenFOAMCommand) :
    List NativeOpenFOAMCommand × List DeltaFailure :=
  if items.length < 2 then (items, [])
  else
    let failures := items.filterMap fun item =>
      match orderingLabels plan item with
      | .error e => some (.unboundOrder item.command e)
      | .ok _ => none
    if failures ≠ [] then (items, failures)
    else
      let labels := items.map fun item => (orderingLabels plan item).toOption.getD ([], [])
      match Topological.order items.length (precedes labels) with
      | some order => (order.filterMap fun i => items[i]?, [])
      | none =>
        let indegree := (Topological.run items.length (precedes labels)).indegree
        (items, [.cycle ((items.zip indegree).filterMap fun item =>
          if item.2 > 0 then some item.1.command else none)])

/-! ### Mesh freshness -/

/-- `affected_mesh_scope_keys`. -/
def affectedMeshScopeKeys (m : MeshHost) (registry : MeshRegistry) (w : CaseWorkspace)
    (plan : EngineeringPlan) (changed : List Text) (invocations : List NativeOpenFOAMCommand) :
    Except (ScopeError ⊕ MeshError) (List Text) := do
  let changed := changed.map posixText
  let operations ← registry.load.mapError .inr
  let scopes ← (declaredScopes plan).mapError .inl
  let observed ← scopes.filterM fun scope =>
    ((dependencies m w operations (scope.name.getD [])).mapError .inr).map fun found =>
      changed.any fun path => found.1.any (pathOverlap path)
  let commanded ← invocations.mapM fun invocation =>
    (invocationScopeKeys scopes invocation).mapError .inl
  return observed.map scopeKey ++ commanded.flatten

/-- The affected scopes, or the failure where they cannot be bound. -/
def boundScopes (r : Except (ScopeError ⊕ MeshError) (List Text)) :
    Except DeltaRaise (List Text × List DeltaFailure) :=
  match r with
  | .ok keys => .ok (keys, [])
  | .error (.inl e) => .ok ([], [.unboundScopes (.inl e)])
  | .error (.inr (.value e)) => .ok ([], [.unboundScopes (.inr e)])
  | .error (.inr (.workspace e)) => .error (.seal e)

/-- The strategy with the controller's mesh checks in the place of other finalizers, when a
scope is affected. -/
def withMeshChecks (plan : EngineeringPlan) (strategy : List NativeOpenFOAMCommand)
    (affected : List Text) : Except ScopeError (List NativeOpenFOAMCommand) :=
  if affected = [] then .ok strategy
  else
    (finalMeshValidationCommands plan affected).map fun checks =>
      strategy.filter (!isFinalizer ·) ++ checks

/-! ### The graph -/

/-- The paths of a set, sorted. -/
def sortedPaths (paths : List Text) : List Text := paths.dedup.insertionSort (· ≤ ·)

/-- The native part of a delta graph. -/
structure NativePart where
  pipeline : List NativeOpenFOAMCommand
  affected : List Text
  failures : List DeltaFailure
  warnings : List DeltaWarning

/-- The native commands of a delta that leaves the files `paths` and changes `inputs`. -/
def compileNative (m : MeshHost) (registry : MeshRegistry) (w : CaseWorkspace)
    (plan : EngineeringPlan) (delta : CaseDelta) (paths inputs : List Text) :
    Except DeltaRaise NativePart := do
  let hints ← raiseScope (hintedCommands delta)
  let (hinted, warnings) ←
    raiseScope ((dedupeNative [] hints).foldlM (admitHint delta.phase paths) ([], []))
  let inferred := autoConsumersForDelta plan paths inputs hinted
  let strategy := dedupeNative [] (hinted ++ inferred.toOption.getD [])
  let (affected, unbound) ← boundScopes (affectedMeshScopeKeys m registry w plan inputs strategy)
  let strategy ← raiseScope (withMeshChecks plan strategy affected)
  let (ordered, ordering) :=
    stableDependencyOrder plan (dedupeNative [] (strategy.filter (!isFinalizer ·)))
  let uncompiled := match inferred with
    | .error e => [DeltaFailure.consumers e]
    | .ok _ => []
  return {
    pipeline := ordered ++ strategy.filter (isFinalizer ·)
    affected
    failures := uncompiled ++ unbound ++ ordering
    warnings }

/-- `dictionary_paths`. -/
def dictionaryPaths (changed : List (Text × Text)) : List Text :=
  sortedPaths <| (changed.map Prod.fst).filter fun path =>
    lowerSuffix path ∉ nonDictionaryExtensions

/-- `surface_paths`. -/
def surfacePaths (changed : List (Text × Text)) : List Text :=
  sortedPaths <| (changed.map Prod.fst).filter fun path => lowerSuffix path ∈ surfaceExtensions

/-- `revalidation_domains`. -/
def revalidationDomains (changed : List (Text × Text)) (affected : List Text)
    (validatePreSolve : Bool) : List Text :=
  (if dictionaryPaths changed = [] then [] else ["dictionary".toList]) ++
    (if surfacePaths changed = [] then [] else ["surface".toList]) ++
    (if affected = [] then [] else ["mesh".toList]) ++
    (if validatePreSolve then ["pre_solve".toList] else [])

/-- `compile_case_delta_graph`. -/
def compileCaseDeltaGraph (m : MeshHost) (check : HeaderCheck) (registry : MeshRegistry)
    (w : CaseWorkspace) (plan : EngineeringPlan) (delta : CaseDelta) :
    Except DeltaRaise CaseDeltaGraph := do
  let view ← raiseCheck (effectiveView w plan)
  let drops := activeDrops view delta
  let edited := normalizeEdits view delta
  let paths := sortedPaths edited.effective.keys
  let missing := plan.requiredCaseFiles.filter (· ∉ paths)
  let manifest := if missing = [] then [] else [DeltaFailure.incompleteManifest missing]
  let bundle ← raiseCheck (w.validateCandidateBundle m.host edited.changed drops)
  let headers ← edited.changed.mapM (headerFailures check delta)
  let commands ← compileNative m registry w plan delta paths (edited.changed.map Prod.fst ++ drops)
  let scopes ← raiseScope (declaredScopes plan)
  let staleDrops := delta.dropPaths.eraseDups.filter (· ∉ view)
  let staleHints := (delta.validateDictionaries ++ delta.surfaceChecks).filter (· ∉ paths)
  return {
    changedFiles := edited.changed
    dropPaths := drops
    effectivePaths := paths
    missingRequiredPaths := missing
    dictionaryPaths := dictionaryPaths edited.changed
    surfacePaths := surfacePaths edited.changed
    nativePipeline := commands.pipeline
    validatePreSolve := delta.validatePreSolve
    affectedMeshScopeKeys := sortedPaths commands.affected
    reusedMeshScopeKeys := sortedPaths ((scopes.map scopeKey).filter (· ∉ commands.affected))
    revalidationDomains :=
      revalidationDomains edited.changed commands.affected delta.validatePreSolve
    failures := (edited.failures ++ manifest ++ bundle.map DeltaFailure.bundle ++
      headers.flatten ++ commands.failures).eraseDups
    warnings := (staleDrops.map DeltaWarning.staleDrop ++ commands.warnings ++
      staleHints.map DeltaWarning.staleValidation).eraseDups }

/-! ### The parts of a valid graph -/

theorem raiseCheck_eq_ok {α : Type} {r : Except CheckError α} {a : α} :
    raiseCheck r = .ok a ↔ r = .ok a := by
  cases r <;> simp [raiseCheck, Except.mapError]

theorem raiseScope_eq_ok {α : Type} {r : Except ScopeError α} {a : α} :
    raiseScope r = .ok a ↔ r = .ok a := by
  cases r <;> simp [raiseScope, Except.mapError]

variable {m : MeshHost} {check : HeaderCheck} {registry : MeshRegistry} {w : CaseWorkspace}
  {plan : EngineeringPlan} {delta : CaseDelta} {graph : CaseDeltaGraph}

/-- What a valid graph was made of, with the view of the committed case. -/
structure Compiled (m : MeshHost) (registry : MeshRegistry) (w : CaseWorkspace)
    (plan : EngineeringPlan) (delta : CaseDelta) (graph : CaseDeltaGraph) (view : Dict Text Text)
    (native : NativePart) : Prop where
  view_eq : effectiveView w plan = .ok view
  edits : (normalizeEdits view delta).failures = []
  changed : graph.changedFiles = (normalizeEdits view delta).changed
  drops : graph.dropPaths = activeDrops view delta
  paths : graph.effectivePaths = sortedPaths (normalizeEdits view delta).effective.keys
  manifest : ∀ path ∈ plan.requiredCaseFiles, path ∈ graph.effectivePaths
  bundle : w.validateCandidateBundle m.host graph.changedFiles graph.dropPaths = .ok []
  native_eq : compileNative m registry w plan delta graph.effectivePaths
    (graph.changedFiles.map Prod.fst ++ graph.dropPaths) = .ok native
  bound : native.failures = []
  pipeline : graph.nativePipeline = native.pipeline
  affected : graph.affectedMeshScopeKeys = sortedPaths native.affected
  reused : graph.reusedMeshScopeKeys =
    sortedPaths (((executionScopes plan).map scopeKey).filter (· ∉ native.affected))

theorem compiled_of_valid (h : compileCaseDeltaGraph m check registry w plan delta = .ok graph)
    (hvalid : graph.Valid) : ∃ view native, Compiled m registry w plan delta graph view native := by
  unfold compileCaseDeltaGraph at h
  simp only [Traversal.bind_eq_ok, raiseCheck_eq_ok, raiseScope_eq_ok] at h
  obtain ⟨view, hview, bundle, hbundle, headers, -, native, hnative, scopes, hscopes, h⟩ := h
  obtain rfl := Except.ok.inj h
  obtain rfl := declaredScopes_eq_ok hscopes
  have hfailures := Repetitions.eq_nil_of_eraseDups hvalid
  simp only [List.append_eq_nil_iff, List.map_eq_nil_iff] at hfailures
  obtain ⟨⟨⟨⟨hedits, hmanifest⟩, rfl⟩, -⟩, hbound⟩ := hfailures
  refine ⟨view, native, hview, hedits, rfl, rfl, rfl, ?_, hbundle, hnative, hbound, rfl, rfl, rfl⟩
  intro path hpath
  split_ifs at hmanifest with hmissing
  simpa using List.filter_eq_nil_iff.1 hmissing path hpath

end Engineering
end OpenFoamAgent
