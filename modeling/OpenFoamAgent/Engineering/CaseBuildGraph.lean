/-
# The build graph of an authored case

`compile_case_build_graph` of `engineering/case_build_graph.py`: the authored
files of a case plan are checked against its manifest, and the native commands
of the action, or those its dictionaries call for, become a pipeline that ends
with the controller's mesh checks. `soundBuild_iff` says what a valid graph is worth.

The pipeline may hold a mesh check twice: the scopes of a plan without an
execution specification come from its region layouts, whose regions need not
differ.
-/
import OpenFoamAgent.Engineering.NativePipelines
import OpenFoamAgent.Schemas.CasePlan

namespace OpenFoamAgent
namespace Engineering

open Python Schemas Workspace

/-! ### Failures and warnings -/

/-- The failures of a build graph. -/
inductive BuildFailure where
  /-- `EngineeringPlan.required_case_files is empty; the Agent must declare at least one
  solve-input path before authoring.` -/
  | emptyManifest
  /-- `Could not compile scope-bound mesh consumers: {exc}` -/
  | consumers (e : ScopeError)
  /-- `Invalid native invocation {command}: {exc}` -/
  | invalidInvocation (command : Text) (e : ScopeError)
  /-- A failure of the stable order. -/
  | order (failure : DeltaFailure)
  /-- `Required case manifest is not fully authored or backed by a compiled native producer:
  {missing}` -/
  | incompleteManifest (missing : List Text)
  /-- `Could not compile scope-bound mesh validation: {exc}` -/
  | meshChecks (e : ScopeError)
  deriving DecidableEq

/-- The warnings of a build graph. -/
inductive BuildWarning where
  /-- `Dropped native hint {command}: command is not permitted in authoring phase.` -/
  | notPermitted (command : Text)
  /-- `Dropped stale native hint {command}: required authored input {required_dict} is absent.` -/
  | staleHint (command required : Text)
  /-- `Ignored stale validation hint for unauthored path: {hinted}` -/
  | staleValidation (path : Text)
  deriving DecidableEq

/-- `CaseBuildGraph`. -/
structure CaseBuildGraph where
  requiredPaths : List Text
  authoredPaths : List Text
  authoredRequiredPaths : List Text
  deferredNativeRequiredPaths : List Text
  missingRequiredPaths : List Text
  dictionaryPaths : List Text
  surfacePaths : List Text
  nativePipeline : List NativeOpenFOAMCommand
  failures : List BuildFailure
  warnings : List BuildWarning
  deriving DecidableEq

/-- `valid`. -/
def CaseBuildGraph.Valid (graph : CaseBuildGraph) : Prop := graph.failures = []

/-! ### The strategy -/

/-- The token of `_dedupe_invocations`. -/
def invocationToken (item : NativeOpenFOAMCommand) : Text × List Text × NativeRole :=
  (item.command, item.arguments, item.role)

/-- `_dedupe_invocations`. -/
def dedupeInvocations (items : List NativeOpenFOAMCommand) : List NativeOpenFOAMCommand :=
  Repetitions.firstByKey invocationToken [] items

/-- The hints of an action: its native pipeline, or else its mesh commands. -/
def authoredHints (action : CaseAuthoringAction) :
    Except ScopeError (List NativeOpenFOAMCommand) :=
  if action.nativePipeline ≠ [] then .ok action.nativePipeline
  else
    action.meshCommands.mapM fun command =>
      if lengthIn 0 160 command && isCommandName command then .ok { command, role := .mesh }
      else .error (.invalidCommand command)

/-- A probe or finalizer, which the model does not order. -/
def isDocumentary (item : NativeOpenFOAMCommand) : Bool :=
  decide (item.command ∈ ["foamDictionary".toList, "surfaceCheck".toList]) || isFinalizer item

/-- The failures, warnings and commands of the strategy so far. -/
structure Admission where
  failures : List BuildFailure := []
  warnings : List BuildWarning := []
  admitted : List NativeOpenFOAMCommand := []

/-- One command of the strategy. -/
def Admission.step (authored : List Text) (s : Admission) (item : NativeOpenFOAMCommand) :
    Admission :=
  match requiredDictionary item.command item.arguments with
  | .error e => { s with failures := s.failures ++ [.invalidInvocation item.command e] }
  | .ok required =>
    if !commandPermitted item.command .authoring then
      { s with warnings := s.warnings ++ [.notPermitted item.command] }
    else
      match required with
      | none => { s with admitted := s.admitted ++ [item] }
      | some path =>
        if path ≠ [] ∧ path ∉ authored then
          { s with warnings := s.warnings ++ [.staleHint item.command path] }
        else { s with admitted := s.admitted ++ [item] }

/-- The strategy of an action: its hints, and the consumers of the authored dictionaries that
no hint stands for. -/
def authoredStrategy (hints inferred : List NativeOpenFOAMCommand) :
    Except ScopeError (List NativeOpenFOAMCommand) := do
  let strategy := dedupeInvocations (hints.filter (!isDocumentary ·))
  let keys ← strategy.mapM explicitKey
  let inferred ← inferred.filterM fun item =>
    (explicitKey item).map fun key => !keys.contains key
  return dedupeInvocations (strategy ++ inferred)

/-! ### The manifest -/

/-- `_path_is_within`. -/
def pathIsWithin (path root : Text) : Bool :=
  trimmedPosix path == trimmedPosix root ||
    (trimmedPosix root ++ ['/']).isPrefixOf (trimmedPosix path)

/-- The output roots of a command that is bound to one declared scope. -/
def outputRoots (plan : EngineeringPlan) (item : NativeOpenFOAMCommand) : List Text :=
  match scopeForNativeArguments plan item.arguments with
  | .error _ => []
  | .ok scope => dependencyOutputs (some scope) item

/-- `_deferred_native_required_paths`. -/
def deferredNativeRequiredPaths (plan : EngineeringPlan) (required : List Text)
    (pipeline : List NativeOpenFOAMCommand) : List Text :=
  required.filter fun path => (pipeline.flatMap (outputRoots plan)).any (pathIsWithin path)

/-! ### The graph -/

/-- `final_mesh_validation_commands` for all scopes. -/
def allMeshValidationCommands (plan : EngineeringPlan) :
    Except ScopeError (List NativeOpenFOAMCommand) := do
  let scopes ← declaredScopes plan
  finalMeshValidationCommands plan (scopes.map scopeKey)

/-- The failure of a part, if it failed. -/
def failureOf {α : Type} (failure : ScopeError → BuildFailure) : Except ScopeError α →
    List BuildFailure
  | .ok _ => []
  | .error e => [failure e]

/-- `compile_case_build_graph` for the files of `candidateBundle`. -/
def compileCaseBuildGraph (execution : ExecuteCasePlanAction) (candidateBundle : Dict Text Text) :
    Except ScopeError CaseBuildGraph := do
  let plan := execution.plan
  let required := plan.requiredCaseFiles.eraseDups
  let authored := candidateBundle.keys
  let hints ← authoredHints execution.action
  let consumers := autoMeshConsumers plan authored
  let strategy ← authoredStrategy hints ((consumers.toOption.getD []).map Prod.snd)
  let admission := strategy.foldl (Admission.step authored) {}
  let (ordered, orderFailures) := stableDependencyOrder plan admission.admitted
  let deferred := deferredNativeRequiredPaths plan (required.filter (· ∉ authored)) ordered
  let missing := required.filter fun path => path ∉ authored ∧ path ∉ deferred
  let checks := allMeshValidationCommands plan
  let staleHints :=
    (execution.action.validateDictionaries ++ execution.action.surfaceChecks).filter (· ∉ authored)
  return {
    requiredPaths := required
    authoredPaths := authored
    authoredRequiredPaths := required.filter (· ∈ authored)
    deferredNativeRequiredPaths := deferred
    missingRequiredPaths := missing
    dictionaryPaths := authored.filter fun path => lowerSuffix path ∉ nonDictionaryExtensions
    surfacePaths := authored.filter fun path => lowerSuffix path ∈ surfaceExtensions
    nativePipeline := ordered ++ checks.toOption.getD []
    failures := ((if required = [] then [BuildFailure.emptyManifest] else []) ++
      failureOf .consumers consumers ++ admission.failures ++
      orderFailures.map BuildFailure.order ++
      (if missing = [] then [] else [BuildFailure.incompleteManifest missing]) ++
      failureOf .meshChecks checks).eraseDups
    warnings := (admission.warnings ++ staleHints.map BuildWarning.staleValidation).eraseDups }

/-! ### What a valid graph is worth -/

/-- The path of the manifest lies within an output root of a command that is bound to exactly
one declared scope. -/
def Deferred (plan : EngineeringPlan) (item : NativeOpenFOAMCommand) (path : Text) : Prop :=
  ∃ region scope, nativeCommandRegion item.arguments = .ok region ∧
    (executionScopes plan).filter (·.name = region) = [scope] ∧
    ∃ root ∈ dependencyOutputs (some scope) item, pathIsWithin path root

/-- What a build graph promises of its pipeline and manifest. -/
structure SoundBuild (plan : EngineeringPlan) (authored : List Text) (graph : CaseBuildGraph) :
    Prop where
  nodup : (graph.nativePipeline.map invocationToken).Nodup
  ordered : Ordered plan graph.nativePipeline
  /-- The pipeline ends with the mesh checks of the declared scopes. -/
  checks : ∃ strategy, graph.nativePipeline = strategy ++ (executionScopes plan).map meshCheck ∧
    ∀ item ∈ strategy, item.command ≠ "checkMesh".toList
  /-- Each declared scope has one mesh check. -/
  checked : ∀ scope ∈ executionScopes plan, graph.nativePipeline.count (meshCheck scope) = 1
  permitted : ∀ item ∈ graph.nativePipeline, isFinalizer item = false →
    commandPermitted item.command .authoring ∧
      ∃ required, requiredDictionary item.command item.arguments = .ok required ∧
        ∀ path ∈ required, path ≠ [] → path ∈ authored
  manifest : ∀ path ∈ plan.requiredCaseFiles,
    path ∈ authored ∨ ∃ item ∈ graph.nativePipeline, Deferred plan item path

variable {execution : ExecuteCasePlanAction} {candidateBundle : Dict Text Text}
  {graph : CaseBuildGraph} {plan : EngineeringPlan} {authored : List Text}

/-- A scope is bound when its region is that of one declared scope. -/
theorem scopeForNativeArguments_eq_ok {arguments : List Text} {scope : ExecutionScope}
    (h : scopeForNativeArguments plan arguments = .ok scope) :
    ∃ region, nativeCommandRegion arguments = .ok region ∧
      (executionScopes plan).filter (·.name = region) = [scope] := by
  unfold scopeForNativeArguments at h
  obtain ⟨region, hregion, h⟩ := Traversal.bind_eq_ok.1 h
  obtain ⟨scopes, hscopes, h⟩ := Traversal.bind_eq_ok.1 h
  obtain rfl := declaredScopes_eq_ok hscopes
  refine ⟨region, hregion, ?_⟩
  split at h
  · rename_i hfilter
    rwa [Except.ok.inj h] at hfilter
  · cases h

theorem deferred_of_mem {required : List Text} {pipeline : List NativeOpenFOAMCommand} {path : Text}
    (h : path ∈ deferredNativeRequiredPaths plan required pipeline) :
    ∃ item ∈ pipeline, Deferred plan item path := by
  obtain ⟨-, hany⟩ := List.mem_filter.1 h
  obtain ⟨root, hroot, hwithin⟩ := List.any_eq_true.1 hany
  obtain ⟨item, hitem, hroot⟩ := List.mem_flatMap.1 hroot
  unfold outputRoots at hroot
  split at hroot
  · cases hroot
  · rename_i scope hscope
    obtain ⟨region, hregion, hone⟩ := scopeForNativeArguments_eq_ok hscope
    exact ⟨item, hitem, region, scope, hregion, hone, root, hroot, hwithin⟩

/-- What holds of a command of the strategy that is kept. -/
def Admitted (authored : List Text) (item : NativeOpenFOAMCommand) : Prop :=
  commandPermitted item.command .authoring = true ∧
    ∃ required, requiredDictionary item.command item.arguments = .ok required ∧
      ∀ path ∈ required, path ≠ [] → path ∈ authored

theorem Admission.step_admitted {s : Admission} {item : NativeOpenFOAMCommand} :
    (s.step authored item).admitted = s.admitted ∨
      (s.step authored item).admitted = s.admitted ++ [item] ∧ Admitted authored item := by
  unfold Admission.step
  split
  · exact .inl rfl
  · rename_i required hrequired
    split_ifs with hpermitted
    · exact .inl rfl
    · have hphase : commandPermitted item.command .authoring = true := by simpa using hpermitted
      split
      · exact .inr ⟨rfl, hphase, none, hrequired, by simp⟩
      · rename_i path
        split_ifs with hstale
        · exact .inl rfl
        · refine .inr ⟨rfl, hphase, some path, hrequired, fun p hp hne => ?_⟩
          obtain rfl := Option.some.inj hp
          by_contra hnot
          exact hstale ⟨hne, hnot⟩

/-- The commands kept are a part of the strategy, and each may run. -/
theorem Admission.admitted_foldl (authored : List Text) (strategy : List NativeOpenFOAMCommand) :
    (strategy.foldl (Admission.step authored) {}).admitted.Sublist strategy ∧
      ∀ item ∈ (strategy.foldl (Admission.step authored) {}).admitted, Admitted authored item := by
  induction strategy using List.reverseRecOn with
  | nil => exact ⟨List.Sublist.refl _, by simp⟩
  | append_singleton strategy item ih =>
    obtain ⟨hsub, hall⟩ := ih
    rw [List.foldl_append, List.foldl_cons, List.foldl_nil]
    set s := strategy.foldl (Admission.step authored) {}
    have hstep : (s.step authored item).admitted = s.admitted ∨
        (s.step authored item).admitted = s.admitted ++ [item] ∧ Admitted authored item :=
      Admission.step_admitted
    rcases hstep with heq | ⟨heq, hitem⟩
    · rw [heq]
      exact ⟨hsub.trans (List.sublist_append_left _ _), hall⟩
    · rw [heq]
      refine ⟨hsub.append (List.Sublist.refl _), fun other hother => ?_⟩
      rcases List.mem_append.1 hother with hold | hnew
      · exact hall other hold
      · exact List.mem_singleton.1 hnew ▸ hitem

/-- The strategy holds each command once, and no finalizer. -/
theorem authoredStrategy_eq_ok {hints inferred strategy : List NativeOpenFOAMCommand}
    (h : authoredStrategy hints inferred = .ok strategy)
    (hinferred : ∀ item ∈ inferred, isFinalizer item = false) :
    (strategy.map invocationToken).Nodup ∧ ∀ item ∈ strategy, isFinalizer item = false := by
  unfold authoredStrategy at h
  obtain ⟨keys, -, h⟩ := Traversal.bind_eq_ok.1 h
  obtain ⟨kept, hkept, h⟩ := Traversal.bind_eq_ok.1 h
  obtain rfl := Except.ok.inj h
  refine ⟨(Repetitions.nodup_firstByKey invocationToken [] _).1, fun item hitem => ?_⟩
  rcases List.mem_append.1 ((Repetitions.firstByKey_sublist _ _ _).subset hitem) with hhint | hmem
  · have hfilter := (Repetitions.firstByKey_sublist _ _ _).subset hhint
    have hplain := (List.mem_filter.1 hfilter).2
    simp only [isDocumentary, Bool.not_eq_true', Bool.or_eq_false_iff] at hplain
    exact hplain.2
  · exact hinferred item (Traversal.mem_of_filterM hkept hmem)

/-- The native part of a valid graph. -/
structure Built (plan : EngineeringPlan) (authored : List Text) (graph : CaseBuildGraph)
    (strategy : List NativeOpenFOAMCommand) : Prop where
  pipeline : graph.nativePipeline = strategy ++ (executionScopes plan).map meshCheck
  nodup : (strategy.map invocationToken).Nodup
  plain : ∀ item ∈ strategy, isFinalizer item = false
  admitted : ∀ item ∈ strategy, Admitted authored item
  ordered : Ordered plan strategy
  manifest : ∀ path ∈ plan.requiredCaseFiles,
    path ∈ authored ∨ ∃ item ∈ strategy, Deferred plan item path

theorem allMeshValidationCommands_eq_ok {checks : List NativeOpenFOAMCommand}
    (h : allMeshValidationCommands plan = .ok checks) :
    checks = (executionScopes plan).map meshCheck := by
  unfold allMeshValidationCommands at h
  obtain ⟨scopes, hscopes, h⟩ := Traversal.bind_eq_ok.1 h
  obtain rfl := declaredScopes_eq_ok hscopes
  rw [finalMeshValidationCommands_eq_ok h, List.filter_eq_self.2]
  intro scope hscope
  exact decide_eq_true (List.mem_map_of_mem hscope)

/-- A part without a failure returned. -/
theorem eq_ok_of_failureOf {α : Type} {failure : ScopeError → BuildFailure}
    {r : Except ScopeError α} (h : failureOf failure r = []) : ∃ a, r = .ok a := by
  cases r with
  | error e => cases h
  | ok a => exact ⟨a, rfl⟩

theorem built_of_valid (h : compileCaseBuildGraph execution candidateBundle = .ok graph)
    (hvalid : graph.Valid) :
    ∃ strategy, Built execution.plan candidateBundle.keys graph strategy := by
  unfold compileCaseBuildGraph at h
  obtain ⟨hints, -, h⟩ := Traversal.bind_eq_ok.1 h
  obtain ⟨strategy, hstrategy, h⟩ := Traversal.bind_eq_ok.1 h
  dsimp only at h
  rcases horder : stableDependencyOrder execution.plan
    (strategy.foldl (Admission.step candidateBundle.keys) {}).admitted with ⟨ordered, orderFailures⟩
  rw [horder] at h
  obtain rfl := Except.ok.inj h
  have hfailures := Repetitions.eq_nil_of_eraseDups hvalid
  simp only [List.append_eq_nil_iff, List.map_eq_nil_iff] at hfailures
  obtain ⟨⟨⟨⟨⟨-, hconsumers⟩, -⟩, rfl⟩, hmissing⟩, hchecks⟩ := hfailures
  obtain ⟨found, hfound⟩ := eq_ok_of_failureOf hconsumers
  obtain ⟨checks, hchecks⟩ := eq_ok_of_failureOf hchecks
  rw [hfound] at hstrategy
  obtain ⟨hnd, hplain⟩ := authoredStrategy_eq_ok hstrategy fun item hitem => by
    obtain ⟨c, hc, rfl⟩ := List.mem_map.1 hitem
    have hphase : NativePhase.authoring ∈ editPhases := by decide
    exact (admissible_of_autoMeshConsumers hphase hfound c hc).2
  obtain ⟨hsub, hadmitted⟩ := Admission.admitted_foldl candidateBundle.keys strategy
  obtain ⟨hperm, hordered⟩ := ordered_of_stableDependencyOrder horder
  refine ⟨_, ?_, ?_, fun item hitem => ?_, fun item hitem => ?_, hordered, fun path hpath => ?_⟩
  · rw [hchecks]
    exact congrArg _ (allMeshValidationCommands_eq_ok hchecks)
  · exact (hperm.map invocationToken).nodup_iff.2 (hnd.sublist (hsub.map invocationToken))
  · exact hplain item (hsub.subset (hperm.mem_iff.1 hitem))
  · exact hadmitted item (hperm.mem_iff.1 hitem)
  · split_ifs at hmissing with hnone
    by_cases hauthored : path ∈ candidateBundle.keys
    · exact .inl hauthored
    · have hkept := List.filter_eq_nil_iff.1 hnone path (List.mem_eraseDups.2 hpath)
      simp only [hauthored, not_false_eq_true, true_and, decide_eq_true_eq, not_not] at hkept
      exact .inr (deferred_of_mem hkept)

theorem arguments_of_invocationToken {a b : NativeOpenFOAMCommand}
    (h : invocationToken a = invocationToken b) : a.arguments = b.arguments :=
  (Prod.mk.inj (Prod.mk.inj h).2).1

/-- **What a valid build graph is worth.** Its pipeline holds each command once, producers
first, ends with one mesh check for each declared scope and covers the manifest, exactly when
the declared scopes have distinct keys. -/
theorem soundBuild_iff (hcompile : compileCaseBuildGraph execution candidateBundle = .ok graph)
    (hvalid : graph.Valid) :
    SoundBuild execution.plan candidateBundle.keys graph ↔
      ((executionScopes execution.plan).map scopeKey).Nodup := by
  obtain ⟨strategy, hbuilt⟩ := built_of_valid hcompile hvalid
  rw [nodup_scopeKey, ← nodup_meshCheck invocationToken fun _ _ => arguments_of_invocationToken]
  constructor
  · intro h
    have hnd := h.nodup
    rw [hbuilt.pipeline, List.map_append] at hnd
    exact (List.nodup_append.1 hnd).2.1
  · intro hscopes
    have hfinal : ∀ item ∈ (executionScopes execution.plan).map meshCheck,
        isFinalizer item = true := by
      intro item hitem
      obtain ⟨scope, -, rfl⟩ := List.mem_map.1 hitem
      exact isFinalizer_meshCheck scope
    have hnd : (graph.nativePipeline.map invocationToken).Nodup := by
      rw [hbuilt.pipeline, List.map_append]
      refine List.nodup_append.2 ⟨hbuilt.nodup, hscopes, ?_⟩
      rintro _ ha _ hb rfl
      obtain ⟨a, ha, hta⟩ := List.mem_map.1 ha
      obtain ⟨b, hb, htb⟩ := List.mem_map.1 hb
      have hcommand : a.command = b.command := (Prod.mk.inj (hta.trans htb.symm)).1
      have hfalse := hbuilt.plain a ha
      rw [isFinalizer_iff.2 (hcommand.trans (isFinalizer_iff.1 (hfinal b hb)))] at hfalse
      cases hfalse
    refine ⟨hnd, ?_, ⟨strategy, hbuilt.pipeline, fun item hitem hcheck => ?_⟩,
      fun scope hscope => ?_, fun item hitem hplain => ?_, fun path hpath => ?_⟩
    · rw [hbuilt.pipeline]
      exact hbuilt.ordered.append_checks _
    · have hfalse := hbuilt.plain item hitem
      rw [isFinalizer_iff.2 hcheck] at hfalse
      cases hfalse
    · refine List.count_eq_one_of_mem (List.Nodup.of_map _ hnd) ?_
      rw [hbuilt.pipeline]
      exact List.mem_append_right _ (List.mem_map_of_mem hscope)
    · rw [hbuilt.pipeline] at hitem
      rcases List.mem_append.1 hitem with hmem | hmem
      · exact hbuilt.admitted item hmem
      · rw [hfinal item hmem] at hplain
        cases hplain
    · refine (hbuilt.manifest path hpath).imp_right fun ⟨item, hitem, hdeferred⟩ => ?_
      rw [hbuilt.pipeline]
      exact ⟨item, List.mem_append_left _ hitem, hdeferred⟩

/-! ### Two layouts of one region -/

/-- A plan with region layouts and without an execution specification. -/
def layoutPlan (regions : List String) : EngineeringPlan where
  caseName := "plate".toList
  solver := "foamMultiRun".toList
  solverProviderId := "foundation".toList
  regionLayouts := regions.map fun region => { region := region.toList }
  openfoamVersion := "13".toList
  problemInterpretation := "flow".toList
  temporalBehavior := .steady
  motionKind := .static
  meshMotionRequirement := .static
  meshStrategy := "blocks".toList
  requiredCaseFiles := ["system/controlDict".toList, "constant/fluid/polyMesh/points".toList]
  confirmedIntakeSha256 := []

/-- An action that authors some files of the plan's case. -/
def layoutAction (regions paths : List String) : ExecuteCasePlanAction where
  action :=
    { goal := "mesh".toList
      files := paths.map fun path => ⟨path.toList, "a 1;\n".toList⟩
      requiredCaseFiles := (layoutPlan regions).requiredCaseFiles }
  plan := layoutPlan regions

/-- The files of an action. -/
def bundleOf (execution : ExecuteCasePlanAction) : Dict Text Text :=
  .ofItems (execution.action.files.map fun file => (file.path, file.content))

/-- The graph of an action, if it is valid and has the property. -/
def builtGraph (execution : ExecuteCasePlanAction) (p : CaseBuildGraph → Bool) :
    Option CaseBuildGraph :=
  match compileCaseBuildGraph execution (bundleOf execution) with
  | .error _ => none
  | .ok graph => if graph.failures = [] ∧ p graph then some graph else none

theorem exists_of_builtGraph (execution : ExecuteCasePlanAction) (p : CaseBuildGraph → Bool)
    (h : (builtGraph execution p).isSome) :
    ∃ graph, compileCaseBuildGraph execution (bundleOf execution) = .ok graph ∧ graph.Valid ∧
      p graph := by
  obtain ⟨graph, hgraph⟩ := Option.isSome_iff_exists.1 h
  unfold builtGraph at hgraph
  split at hgraph
  · cases hgraph
  · rename_i graph' hcompile
    split_ifs at hgraph with hvalid
    exact ⟨graph', hcompile, hvalid⟩

/-- Two layouts of one region, with a mesh made elsewhere. -/
def doubledAction : ExecuteCasePlanAction :=
  layoutAction ["fluid", "fluid"] ["system/controlDict", "constant/fluid/polyMesh/points"]

/-- **A mesh is checked twice** where two layouts name one region. -/
theorem doubled_meshCheck :
    doubledAction.action.validateCaseAuthoring true ∧
      ∃ graph, compileCaseBuildGraph doubledAction (bundleOf doubledAction) = .ok graph ∧
        graph.Valid ∧ ¬ graph.nativePipeline.Nodup := by
  obtain ⟨graph, hgraph, hvalid, htwice⟩ := exists_of_builtGraph doubledAction
    (fun graph => !decide graph.nativePipeline.Nodup) (by decide +kernel)
  exact ⟨by decide +kernel, graph, hgraph, hvalid, by simpa using htwice⟩

/-- One region, whose mesh a native command makes. -/
def regionAction : ExecuteCasePlanAction :=
  layoutAction ["fluid"] ["system/controlDict", "system/fluid/blockMeshDict"]

/-- The graph of `soundBuild_iff` for one region. -/
theorem soundBuild_iff_region :
    ∃ graph, compileCaseBuildGraph regionAction (bundleOf regionAction) = .ok graph ∧
      SoundBuild regionAction.plan (bundleOf regionAction).keys graph := by
  obtain ⟨graph, hgraph, hvalid, -⟩ :=
    exists_of_builtGraph regionAction (fun _ => true) (by decide +kernel)
  exact ⟨graph, hgraph, (soundBuild_iff hgraph hvalid).2 (by decide +kernel)⟩

end Engineering
end OpenFoamAgent
