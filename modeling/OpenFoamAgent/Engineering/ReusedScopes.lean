/-
# Scopes reported as reused

`affected_mesh_scope_keys` (`contracts/execution_scopes.py`) marks a scope when a changed
path overlaps its recorded mesh dependencies, and when a mesh command of the delta is
addressed to it. What a command writes is not compared with the dependencies: feature
extraction that is addressed to one region writes the shared `constant/triSurface`, and an
operation recorded for another region may have read it.

A delta keeps the reused scopes fresh exactly when no mesh command that it calls for in one
region writes into the recorded dependencies of another scope, which neither its edits touch
nor its commands address.
-/
import OpenFoamAgent.Engineering.ConsumerClosure
import OpenFoamAgent.Engineering.DeltaPipelines

namespace OpenFoamAgent
namespace Engineering

open Python Schemas Workspace

/-! ### The commands a delta calls for -/

/-- A hint that `compile_case_delta_graph` takes up. -/
def takesUp (phase : NativePhase) (paths : List Text) (item : NativeOpenFOAMCommand) : Bool :=
  item.command ∉ controllerOwned && commandPermitted item.command phase &&
    match requiredDictionary item.command item.arguments with
    | .ok (some required) => required = [] || required ∈ paths
    | .ok none => true
    | .error _ => false

/-- The hints of a delta that are taken up, each command line once. -/
def takenHints (delta : CaseDelta) (paths : List Text) : List NativeOpenFOAMCommand :=
  (dedupeNative [] ((hintedCommands delta).toOption.getD [])).filter (takesUp delta.phase paths)

/-- A command the delta calls for: a hint that is taken up, or a consumer reached from the changed
paths `inputs` and from what the hints write. -/
def CalledFor (plan : EngineeringPlan) (delta : CaseDelta) (paths inputs : List Text)
    (item : NativeOpenFOAMCommand) : Prop :=
  item ∈ takenHints delta paths ∨
    ∃ candidates, consumerCandidates plan paths = .ok candidates ∧
      ∃ c, Saturation.Derived consumerRules (uncovered (takenHints delta paths) candidates)
        (startPaths plan (takenHints delta paths) inputs) c ∧ c.2 = item

/-- What a command writes in a region, by the registry. -/
def regionOutputs (item : NativeOpenFOAMCommand) (region : Text) : List Text :=
  (nativeToolContract item.command).meshDependencyOutputs.map
    (·.render (some { name := some region }))

variable {plan : EngineeringPlan} {delta : CaseDelta} {paths inputs : List Text}

theorem admitted_eq {phase : NativePhase} {hints : List NativeOpenFOAMCommand}
    {s : List NativeOpenFOAMCommand × List DeltaWarning}
    (h : hints.foldlM (admitHint phase paths) ([], []) = .ok s) :
    s.1 = hints.filter (takesUp phase paths) := by
  refine Traversal.foldlM_induct
    (P := fun done (t : List NativeOpenFOAMCommand × List DeltaWarning) =>
      t.1 = done.filter (takesUp phase paths)) h rfl ?_
  intro done hint _ t t' ht hstep
  rw [List.filter_append, ← ht]
  unfold admitHint at hstep
  split_ifs at hstep with howned hpermitted
  · obtain rfl := Except.ok.inj hstep
    simp [takesUp, howned]
  · obtain rfl := Except.ok.inj hstep
    have hno : commandPermitted hint.command phase = false := by simpa using hpermitted
    simp [takesUp, hno]
  · have hyes : commandPermitted hint.command phase = true := by simpa using hpermitted
    split at hstep
    · cases hstep
    · rename_i hnone
      obtain rfl := Except.ok.inj hstep
      simp [takesUp, howned, hyes, hnone]
    · rename_i required hrequired
      split_ifs at hstep with hstale
      · obtain rfl := Except.ok.inj hstep
        simp [takesUp, howned, hyes, hrequired, hstale]
      · obtain rfl := Except.ok.inj hstep
        have hkept : required = [] ∨ required ∈ paths := by
          by_contra hnot
          rw [not_or] at hnot
          exact hstale hnot
        simp [takesUp, howned, hyes, hrequired, hkept]

theorem calledFor_iff {found : List NativeOpenFOAMCommand}
    (h : autoConsumersForDelta plan paths inputs (takenHints delta paths) = .ok found)
    {item : NativeOpenFOAMCommand} :
    CalledFor plan delta paths inputs item ↔ item ∈ takenHints delta paths ∨ item ∈ found := by
  obtain ⟨candidates, hcandidates, -, s, hs, hleast, -⟩ :=
    autoConsumersForDelta_searches paths inputs (bindable_of_autoConsumersForDelta h)
  obtain rfl := Except.ok.inj (hs.symm.trans h)
  have heq := hleast.least.unique (Saturation.isLeast_derived (r := consumerRules))
  refine or_congr_right ⟨?_, fun hitem => ⟨candidates, hcandidates, ?_⟩⟩
  · rintro ⟨candidates', hcandidates', c, hc, rfl⟩
    obtain rfl := Except.ok.inj (hcandidates'.symm.trans hcandidates)
    exact (heq.superset hc).2
  · obtain ⟨c, hc, rfl⟩ := hleast.chosen item hitem
    exact ⟨c, heq.subset ⟨hc, hitem⟩, rfl⟩

/-! ### The commands of a valid graph -/

/-- What the native part of a valid graph was made of. -/
structure Commanded (m : MeshHost) (registry : MeshRegistry) (w : CaseWorkspace)
    (plan : EngineeringPlan) (delta : CaseDelta) (paths inputs : List Text)
    (native : NativePart) (strategy : List NativeOpenFOAMCommand) : Prop where
  called : ∀ item ∈ strategy, CalledFor plan delta paths inputs item
  complete : ∀ item, CalledFor plan delta paths inputs item →
    commandToken item ∈ strategy.map commandToken
  affected : affectedMeshScopeKeys m registry w plan inputs strategy = .ok native.affected
  pipeline : ∀ item ∈ native.pipeline, item ∈ strategy ∨ isFinalizer item = true
  run : ∀ item ∈ strategy, commandToken item ∈ native.pipeline.map commandToken

variable {m : MeshHost} {check : HeaderCheck} {registry : MeshRegistry} {w : CaseWorkspace}
  {graph : CaseDeltaGraph} {native : NativePart}

theorem boundScopes_eq_ok {r : Except (ScopeError ⊕ MeshError) (List Text)} {keys : List Text}
    (h : boundScopes r = .ok (keys, [])) : r = .ok keys := by
  unfold boundScopes at h
  split at h
  · exact congrArg _ (Prod.mk.inj (Except.ok.inj h)).1
  · cases (Prod.mk.inj (Except.ok.inj h)).2
  · cases (Prod.mk.inj (Except.ok.inj h)).2
  · cases h

theorem commanded_of_compileNative
    (h : compileNative m registry w plan delta paths inputs = .ok native)
    (hbound : native.failures = []) :
    ∃ strategy, Commanded m registry w plan delta paths inputs native strategy := by
  unfold compileNative at h
  simp only [Traversal.bind_eq_ok, raiseScope_eq_ok] at h
  obtain ⟨hints, hhints, ⟨hinted, warnings⟩, hhinted, ⟨affected, unbound⟩, haffected, checked,
    hchecked, h⟩ := h
  dsimp only at haffected hchecked h
  have htaken : hinted = takenHints delta paths := by
    rw [takenHints, hhints]
    exact admitted_eq hhinted
  subst htaken
  rcases horder : stableDependencyOrder plan (dedupeNative [] (checked.filter (!isFinalizer ·)))
    with ⟨ordered, ordering⟩
  rw [horder] at h
  obtain rfl := Except.ok.inj h
  simp only [List.append_eq_nil_iff] at hbound
  obtain ⟨⟨hcompiled, rfl⟩, rfl⟩ := hbound
  rcases hinferred : autoConsumersForDelta plan paths inputs (takenHints delta paths) with e | found
  · rw [hinferred] at hcompiled
    cases hcompiled
  rw [hinferred] at haffected hchecked
  have hconsumers : ∀ item ∈ found, Admissible .repair paths item :=
    admissible_of_autoConsumersForDelta (by decide) hinferred
  have hplain : ∀ item ∈ dedupeNative [] (takenHints delta paths ++ found),
      isFinalizer item = false := by
    intro item hitem
    rcases List.mem_append.1 (mem_of_mem_dedupeNative hitem) with hmem | hmem
    · exact (admissible_of_admitHint hhinted item hmem).2
    · exact (hconsumers item hmem).2
  obtain ⟨hkept, hfinal⟩ := withMeshChecks_eq_ok hplain hchecked
  obtain ⟨hperm, -⟩ := ordered_of_stableDependencyOrder horder
  have htokens : ∀ (l : List NativeOpenFOAMCommand) (token : Text × List Text),
      token ∈ (dedupeNative [] l).map commandToken ↔ token ∈ l.map commandToken := by
    intro l token
    rw [dedupeNative_eq, Repetitions.mem_map_firstByKey]
    simp
  refine ⟨dedupeNative [] (takenHints delta paths ++ found), fun item hitem => ?_,
    fun item hitem => ?_, boundScopes_eq_ok haffected, fun item hitem => ?_, fun item hitem => ?_⟩
  · exact (calledFor_iff hinferred).2 (List.mem_append.1 (mem_of_mem_dedupeNative hitem))
  · rw [htokens]
    exact List.mem_map_of_mem (List.mem_append.2 ((calledFor_iff hinferred).1 hitem))
  · rcases List.mem_append.1 hitem with hmem | hmem
    · have hmem := mem_of_mem_dedupeNative (hperm.mem_iff.1 hmem)
      rw [hkept] at hmem
      exact .inl hmem
    · exact .inr (List.mem_filter.1 hmem).2
  · have hmem : commandToken item ∈ ordered.map commandToken := by
      rw [(hperm.map commandToken).mem_iff, htokens, hkept]
      exact List.mem_map_of_mem hitem
    rw [List.map_append]
    exact List.mem_append_left _ hmem

/-! ### The scopes that are affected -/

theorem scopeKey_eq_iff {s s' : ExecutionScope} : scopeKey s = scopeKey s' ↔ s.name = s'.name := by
  have hnodup : ([s, s'].map scopeKey).Nodup ↔ ([s, s'].map (·.name)).Nodup := nodup_scopeKey
  refine not_iff_not.1 ?_
  simpa using hnodup

/-- A scope has a recorded mesh dependency that overlaps a path. -/
def DependsOn (m : MeshHost) (registry : MeshRegistry) (w : CaseWorkspace) (scope : ExecutionScope)
    (path : Text) : Prop :=
  ∃ operations found, registry.load = .ok operations ∧
    dependencies m w operations (scope.name.getD []) = .ok found ∧
      ∃ dependency ∈ found.1, pathOverlap path dependency

/-- A mesh or decomposition command is addressed to a scope: to its region, or to none. -/
def Addresses (item : NativeOpenFOAMCommand) (scope : ExecutionScope) : Prop :=
  (nativeToolContract item.command).effect ∈ [.mesh, .decomposition] ∧
    ∃ region, nativeCommandRegion item.arguments = .ok region ∧
      (region = none ∨ region = scope.name)

theorem Addresses.congr {item item' : NativeOpenFOAMCommand} {scope : ExecutionScope}
    (h : commandToken item' = commandToken item) :
    Addresses item' scope ↔ Addresses item scope := by
  obtain ⟨hcommand, harguments⟩ := Prod.mk.inj h
  rw [Addresses, Addresses, hcommand, harguments]

theorem mem_invocationScopeKeys {scopes : List ExecutionScope} {item : NativeOpenFOAMCommand}
    {keys : List Text} (h : invocationScopeKeys scopes item = .ok keys) {scope : ExecutionScope}
    (hscope : scope ∈ scopes) : scopeKey scope ∈ keys ↔ Addresses item scope := by
  unfold invocationScopeKeys at h
  split_ifs at h with heffect
  · split at h
    · cases h
    · rename_i hregion
      obtain rfl := Except.ok.inj h
      exact iff_of_true (List.mem_map_of_mem hscope) ⟨heffect, none, hregion, .inl rfl⟩
    · rename_i region hregion
      split at h
      · rename_i target htarget
        obtain rfl := Except.ok.inj h
        have hname : target.name = some region := by
          have hmem : target ∈ scopes.filter (·.name = some region) := by
            rw [htarget]
            exact List.mem_singleton_self _
          simpa using (List.mem_filter.1 hmem).2
        rw [List.mem_singleton, scopeKey_eq_iff, hname]
        constructor
        · exact fun hsame => ⟨heffect, _, hregion, .inr hsame.symm⟩
        · rintro ⟨-, region', hregion', hnone | hsame⟩
          · subst hnone
            cases hregion.symm.trans hregion'
          · rw [← hsame]
            exact Except.ok.inj (hregion'.symm.trans hregion)
      · cases h
  · obtain rfl := Except.ok.inj h
    exact iff_of_false List.not_mem_nil fun haddressed => heffect haddressed.1

/-- **The affected scopes.** A declared scope is affected when an edit overlaps its recorded
dependencies or a command is addressed to it. -/
theorem mem_affectedMeshScopeKeys {strategy : List NativeOpenFOAMCommand} {keys : List Text}
    (h : affectedMeshScopeKeys m registry w plan inputs strategy = .ok keys)
    {scope : ExecutionScope} (hscope : scope ∈ executionScopes plan) :
    scopeKey scope ∈ keys ↔ (∃ path ∈ inputs, DependsOn m registry w scope (posixText path)) ∨
      ∃ item ∈ strategy, Addresses item scope := by
  unfold affectedMeshScopeKeys at h
  obtain ⟨operations, hload, h⟩ := Traversal.bind_eq_ok.1 h
  obtain ⟨scopes, hscopes, h⟩ := Traversal.bind_eq_ok.1 h
  obtain ⟨observed, hobserved, h⟩ := Traversal.bind_eq_ok.1 h
  obtain ⟨commanded, hcommanded, h⟩ := Traversal.bind_eq_ok.1 h
  obtain rfl := Except.ok.inj h
  have hload' : registry.load = .ok operations := Traversal.mapError_eq_ok.1 hload
  obtain rfl : scopes = executionScopes plan :=
    declaredScopes_eq_ok (Traversal.mapError_eq_ok.1 hscopes)
  have hdepends : ∀ s : ExecutionScope, s.name = scope.name →
      ((((dependencies m w operations (s.name.getD [])).mapError
          (Sum.inr : _ → ScopeError ⊕ MeshError)).map fun found =>
        (inputs.map posixText).any fun path => found.1.any (pathOverlap path)).toOption.getD false =
          true ↔ ∃ path ∈ inputs, DependsOn m registry w scope (posixText path)) := by
    intro s hname
    rw [hname]
    cases hfound : dependencies m w operations (scope.name.getD []) with
    | error e =>
      refine iff_of_false (by simp [Except.mapError, Except.map, Except.toOption]) ?_
      rintro ⟨path, -, operations', found, hload'', hfound', -⟩
      obtain rfl := Except.ok.inj (hload'.symm.trans hload'')
      cases hfound.symm.trans hfound'
    | ok found =>
      simp only [Except.mapError, Except.map, Except.toOption, Option.getD_some, List.any_map,
        List.any_eq_true]
      refine exists_congr fun path => and_congr_right fun _ => ?_
      constructor
      · intro h
        exact ⟨operations, found, hload', hfound, List.any_eq_true.1 h⟩
      · rintro ⟨operations', found', hload'', hfound', h⟩
        obtain rfl := Except.ok.inj (hload'.symm.trans hload'')
        obtain rfl := Except.ok.inj (hfound.symm.trans hfound')
        exact List.any_eq_true.2 h
  rw [List.mem_append]
  refine or_congr ?_ ?_
  · rw [Traversal.filter_of_filterM hobserved, List.mem_map]
    constructor
    · rintro ⟨s, hs, hkey⟩
      exact (hdepends s (scopeKey_eq_iff.1 hkey)).1 (List.mem_filter.1 hs).2
    · intro htouched
      exact ⟨scope, List.mem_filter.2 ⟨hscope, (hdepends scope rfl).2 htouched⟩, rfl⟩
  · rw [List.mem_flatten]
    constructor
    · rintro ⟨found, hfound, hkey⟩
      obtain ⟨item, hitem, hkeys⟩ := Traversal.ok_of_mem_mapM hcommanded hfound
      have hone := mem_invocationScopeKeys (Traversal.mapError_eq_ok.1 hkeys) hscope
      exact ⟨item, hitem, hone.1 hkey⟩
    · rintro ⟨item, hitem, haddressed⟩
      obtain ⟨found, hfound, hkeys⟩ := Traversal.exists_mem_of_mapM hcommanded hitem
      have hone := mem_invocationScopeKeys (Traversal.mapError_eq_ok.1 hkeys) hscope
      exact ⟨_, hfound, hone.2 haddressed⟩

/-! ### What the commands write -/

/-- A shared path that `str(PurePosixPath(path))` gives back. -/
def PathTemplate.sharedPosix : PathTemplate → Bool
  | shared path => decide (posixText path = path)
  | _ => true

/-- Shared templates of the registry are paths as `PurePosixPath` writes them. -/
theorem posixText_of_shared {command path : Text}
    (h : .shared path ∈ (nativeToolContract command).meshDependencyOutputs) :
    posixText path = path := by
  have hall : ∀ contract ∈ registeredContracts, ∀ t ∈ contract.meshDependencyOutputs,
      t.sharedPosix = true := by
    decide +kernel
  rcases nativeToolContract_eq command with ⟨hmem, -⟩ | hunknown
  · exact of_decide_eq_true (hall _ hmem _ h)
  · rw [hunknown] at h
    cases h

/-- A command that is addressed to a region writes there. -/
theorem dependencyOutputs_eq {item : NativeOpenFOAMCommand} {region : Text}
    {target : Option ExecutionScope} (htarget : explicitScope plan item = .ok target)
    (hregion : nativeCommandRegion item.arguments = .ok (some region)) :
    dependencyOutputs target item = regionOutputs item region := by
  refine List.map_congr_left fun t ht => ?_
  unfold explicitScope at htarget
  dsimp only at htarget
  split_ifs at htarget with hneeds
  · cases hscope : scopeForNativeArguments plan item.arguments with
    | error => rw [hscope] at htarget; cases htarget
    | ok scope =>
      rw [hscope] at htarget
      obtain rfl := Except.ok.inj htarget
      obtain ⟨region', hregion', hfilter⟩ := scopeForNativeArguments_eq_ok hscope
      obtain rfl := Except.ok.inj (hregion.symm.trans hregion')
      have hmem : scope ∈ (executionScopes plan).filter (·.name = some region) := by
        rw [hfilter]
        exact List.mem_singleton_self _
      have hname : scope.name = some region := of_decide_eq_true (List.mem_filter.1 hmem).2
      exact IsConsumer.render_congr hname t
  · obtain rfl := Except.ok.inj htarget
    have hshared : t.needsScope = false := by
      rw [← Bool.not_eq_true]
      exact fun hneed => hneeds (List.any_eq_true.2 ⟨t, List.mem_append_right _ ht, hneed⟩)
    cases t with
    | shared path => exact (posixText_of_shared ht).symm
    | inConstant name => cases hshared
    | inSystem name => cases hshared

/-- The scope of a mesh command that was bound to one region. -/
theorem explicitScope_eq_ok {item : NativeOpenFOAMCommand} {region : Text} {keys : List Text}
    (heffect : (nativeToolContract item.command).effect = .mesh)
    (hregion : nativeCommandRegion item.arguments = .ok (some region))
    (hscopes : declaredScopes plan = .ok (executionScopes plan))
    (hkeys : invocationScopeKeys (executionScopes plan) item = .ok keys) :
    ∃ target, explicitScope plan item = .ok target := by
  unfold explicitScope
  dsimp only
  split_ifs
  · unfold invocationScopeKeys at hkeys
    rw [heffect, hregion, if_neg (by decide)] at hkeys
    dsimp only at hkeys
    split at hkeys
    · rename_i scope hfilter
      refine ⟨some scope, ?_⟩
      unfold scopeForNativeArguments
      rw [hregion, hscopes]
      dsimp only [bind, Except.bind]
      rw [hfilter]
      rfl
    · cases hkeys
  · exact ⟨none, rfl⟩

/-! ### Reused scopes -/

/-- No mesh command of the pipeline writes, by its declared outputs, into a recorded mesh
dependency of a scope the graph reports as reused. -/
def ReusedStayFresh (m : MeshHost) (registry : MeshRegistry) (w : CaseWorkspace)
    (plan : EngineeringPlan) (graph : CaseDeltaGraph) : Prop :=
  ∀ item ∈ graph.nativePipeline, (nativeToolContract item.command).effect = .mesh →
    ∀ scope ∈ executionScopes plan, scopeKey scope ∈ graph.reusedMeshScopeKeys →
      ∀ target, explicitScope plan item = .ok target →
        ∀ output ∈ dependencyOutputs target item, ¬ DependsOn m registry w scope output

/-- A scope that neither the edits nor the commands of a delta concern. -/
structure Unconcerned (m : MeshHost) (registry : MeshRegistry) (w : CaseWorkspace)
    (plan : EngineeringPlan) (delta : CaseDelta) (paths inputs : List Text)
    (scope : ExecutionScope) : Prop where
  edits : ∀ path ∈ inputs, ¬ DependsOn m registry w scope (posixText path)
  commands : ∀ item, CalledFor plan delta paths inputs item → ¬ Addresses item scope

/-- The mesh commands a delta calls for in one region write into no recorded dependency of a
scope that is not concerned. -/
def KeepsOut (m : MeshHost) (registry : MeshRegistry) (w : CaseWorkspace)
    (plan : EngineeringPlan) (delta : CaseDelta) : Prop :=
  ∀ view, effectiveView w plan = .ok view →
    let paths := sortedPaths (normalizeEdits view delta).effective.keys
    let inputs := (normalizeEdits view delta).changed.map Prod.fst ++ activeDrops view delta
    ∀ item, CalledFor plan delta paths inputs item →
      (nativeToolContract item.command).effect = .mesh →
      ∀ region, nativeCommandRegion item.arguments = .ok (some region) →
        ∀ scope ∈ executionScopes plan, Unconcerned m registry w plan delta paths inputs scope →
          ∀ output ∈ regionOutputs item region, ¬ DependsOn m registry w scope output

/-- Where the affected scopes could be bound, every command of the strategy was. -/
theorem bound_of_affectedMeshScopeKeys {strategy : List NativeOpenFOAMCommand} {keys : List Text}
    (h : affectedMeshScopeKeys m registry w plan inputs strategy = .ok keys) :
    declaredScopes plan = .ok (executionScopes plan) ∧
      ∀ item ∈ strategy, ∃ found, invocationScopeKeys (executionScopes plan) item = .ok found := by
  unfold affectedMeshScopeKeys at h
  obtain ⟨operations, -, h⟩ := Traversal.bind_eq_ok.1 h
  obtain ⟨scopes, hscopes, h⟩ := Traversal.bind_eq_ok.1 h
  obtain ⟨observed, -, h⟩ := Traversal.bind_eq_ok.1 h
  obtain ⟨commanded, hcommanded, -⟩ := Traversal.bind_eq_ok.1 h
  have hdeclared := Traversal.mapError_eq_ok.1 hscopes
  obtain rfl := declaredScopes_eq_ok hdeclared
  refine ⟨hdeclared, fun item hitem => ?_⟩
  obtain ⟨found, -, hfound⟩ := Traversal.exists_mem_of_mapM hcommanded hitem
  exact ⟨found, Traversal.mapError_eq_ok.1 hfound⟩

/-- A declared scope is reused exactly when no edit and no command concerns it. -/
theorem reused_iff {strategy : List NativeOpenFOAMCommand}
    (h : Commanded m registry w plan delta paths inputs native strategy)
    {scope : ExecutionScope} (hscope : scope ∈ executionScopes plan) :
    scopeKey scope ∈ sortedPaths (((executionScopes plan).map scopeKey).filter
      (· ∉ native.affected)) ↔ Unconcerned m registry w plan delta paths inputs scope := by
  rw [sortedPaths, (List.perm_insertionSort _ _).mem_iff, List.mem_dedup, List.mem_filter,
    decide_eq_true_eq, mem_affectedMeshScopeKeys h.affected hscope, not_or]
  constructor
  · rintro ⟨-, hedits, hcommands⟩
    refine ⟨fun path hpath hdepends => hedits ⟨path, hpath, hdepends⟩, ?_⟩
    intro item hitem haddressed
    obtain ⟨item', hitem', htoken⟩ := List.mem_map.1 (h.complete item hitem)
    exact hcommands ⟨item', hitem', (Addresses.congr htoken).2 haddressed⟩
  · intro hunconcerned
    refine ⟨List.mem_map_of_mem hscope, ?_, ?_⟩
    · rintro ⟨path, hpath, hdepends⟩
      exact hunconcerned.edits path hpath hdepends
    · rintro ⟨item, hitem, haddressed⟩
      exact hunconcerned.commands item (h.called item hitem) haddressed

/-- **When the reused scopes stay fresh.** For every valid delta graph, no mesh command of its
pipeline writes into a recorded dependency of a scope reported as reused exactly when the mesh
commands the delta calls for in one region keep out of the recorded dependencies of the scopes
that its edits and commands do not concern. -/
theorem reused_fresh_iff
    (hcompile : compileCaseDeltaGraph m check registry w plan delta = .ok graph)
    (hvalid : graph.Valid) :
    ReusedStayFresh m registry w plan graph ↔ KeepsOut m registry w plan delta := by
  obtain ⟨view, native, hgraph⟩ := compiled_of_valid hcompile hvalid
  have hnative := hgraph.native_eq
  rw [hgraph.paths, hgraph.changed, hgraph.drops] at hnative
  obtain ⟨strategy, hcommanded⟩ := commanded_of_compileNative hnative hgraph.bound
  obtain ⟨hdeclared, hbound⟩ := bound_of_affectedMeshScopeKeys hcommanded.affected
  unfold ReusedStayFresh
  rw [hgraph.pipeline, hgraph.reused]
  constructor
  · intro hfresh view' hview' paths inputs item hitem heffect region hregion scope hscope
      hunconcerned output houtput
    obtain rfl := Except.ok.inj (hgraph.view_eq.symm.trans hview')
    obtain ⟨item', hitem', htoken⟩ := List.mem_map.1 (hcommanded.complete item hitem)
    obtain ⟨ran, hran, htoken'⟩ := List.mem_map.1 (hcommanded.run item' hitem')
    obtain ⟨hcommand, harguments⟩ := Prod.mk.inj htoken
    obtain ⟨hcommand', harguments'⟩ := Prod.mk.inj (htoken'.trans htoken)
    obtain ⟨keys, hkeys⟩ := hbound item' hitem'
    obtain ⟨target, htarget⟩ := explicitScope_eq_ok (by rw [hcommand, heffect])
      (harguments ▸ hregion) hdeclared hkeys
    have hsame : explicitScope plan ran = .ok target := by
      rw [← htarget]
      unfold explicitScope
      rw [hcommand', harguments', hcommand, harguments]
    refine hfresh ran hran (by rw [hcommand', heffect]) scope hscope
      ((reused_iff hcommanded hscope).2 hunconcerned) target hsame output ?_
    rw [dependencyOutputs_eq hsame (harguments' ▸ hregion), regionOutputs, hcommand']
    exact houtput
  · intro hseparate item hitem heffect scope hscope hreused target htarget output houtput
    have hunconcerned := (reused_iff hcommanded hscope).1 hreused
    rcases hcommanded.pipeline item hitem with hmem | hfinal
    · obtain ⟨keys, hkeys⟩ := hbound item hmem
      have hcalled := hcommanded.called item hmem
      have hmesh : (nativeToolContract item.command).effect ∈ [.mesh, .decomposition] := by
        rw [heffect]
        decide
      rcases hregion : nativeCommandRegion item.arguments with e | _ | region
      · unfold invocationScopeKeys at hkeys
        rw [heffect, hregion, if_neg (by decide)] at hkeys
        cases hkeys
      · exact absurd ⟨hmesh, none, hregion, .inl rfl⟩ (hunconcerned.commands item hcalled)
      · exact hseparate view hgraph.view_eq item hcalled heffect region hregion scope hscope
          hunconcerned output (dependencyOutputs_eq htarget hregion ▸ houtput)
    · rw [isFinalizer_iff.1 hfinal] at heffect
      exact absurd heffect (by decide +kernel)

/-! ### Feature extraction in one of two regions -/

/-- A recorded `snappyHexMesh -region solid -dict system/solid/snappy`. -/
def snappedSolid : MeshOperation where
  inputs := ["system/solid/snappy".toList, "constant/solid/polyMesh".toList,
    "constant/triSurface".toList, "constant/geometry".toList]
  outputs := ["constant/solid/polyMesh".toList]
  regions := ["solid".toList]

/-- Feature extraction in the region `fluid`, with its dictionary. -/
def featureDelta : CaseDelta where
  replacements := [("system/fluid/surfaceFeatureExtractDict".toList, dictionaryText "a 1;\n")]
  nativeHints := [{
    command := "surfaceFeatureExtract".toList
    arguments := ["-region".toList, "fluid".toList]
    role := .mesh }]

/-- Its graph, for a case with the recorded operation. -/
def featureGraph : Except DeltaRaise CaseDeltaGraph :=
  compileCaseDeltaGraph plainHost (fun _ _ _ => some []) (.recorded [snappedSolid]) smallCase
    (openPlan ["fluid", "solid"]) featureDelta

theorem exists_of_featureGraph {p : CaseDeltaGraph → Bool}
    (h : (featureGraph.toOption.any fun graph => decide (graph.failures = []) && p graph) = true) :
    ∃ graph, featureGraph = .ok graph ∧ graph.Valid ∧ p graph = true := by
  cases hgraph : featureGraph with
  | error e =>
    rw [hgraph] at h
    cases h
  | ok graph =>
    rw [hgraph] at h
    obtain ⟨hvalid, hp⟩ := Bool.and_eq_true_iff.1 h
    exact ⟨graph, rfl, (of_decide_eq_true hvalid : graph.failures = []), hp⟩

/-- The graph of `reused_fresh_iff` for two regions. -/
theorem reused_fresh_iff_features :
    ∃ graph, compileCaseDeltaGraph plainHost (fun _ _ _ => some []) (.recorded [snappedSolid])
        smallCase (openPlan ["fluid", "solid"]) featureDelta = .ok graph ∧
      (ReusedStayFresh plainHost (.recorded [snappedSolid]) smallCase (openPlan ["fluid", "solid"])
          graph ↔
        KeepsOut plainHost (.recorded [snappedSolid]) smallCase (openPlan ["fluid", "solid"])
          featureDelta) := by
  obtain ⟨graph, hgraph, hvalid, -⟩ := exists_of_featureGraph (p := fun _ => true)
    (by decide +kernel)
  exact ⟨graph, hgraph, reused_fresh_iff hgraph hvalid⟩

/-- **A reused scope is made stale.** The extraction is addressed to `fluid` and writes the shared
surfaces, which the recorded mesh of `solid` was made of; `solid` is reported as reused. -/
theorem shared_surface_stale :
    ∃ graph, compileCaseDeltaGraph plainHost (fun _ _ _ => some []) (.recorded [snappedSolid])
        smallCase (openPlan ["fluid", "solid"]) featureDelta = .ok graph ∧ graph.Valid ∧
      ¬ ReusedStayFresh plainHost (.recorded [snappedSolid]) smallCase
        (openPlan ["fluid", "solid"]) graph := by
  let extraction : NativeOpenFOAMCommand := {
    command := "surfaceFeatureExtract".toList
    arguments := ["-region".toList, "fluid".toList]
    role := .mesh }
  obtain ⟨graph, hgraph, hvalid, hreports⟩ := exists_of_featureGraph
    (p := fun graph => decide (extraction ∈ graph.nativePipeline) &&
      decide ("region:solid".toList ∈ graph.reusedMeshScopeKeys)) (by decide +kernel)
  obtain ⟨hruns, hreused⟩ := Bool.and_eq_true_iff.1 hreports
  refine ⟨graph, hgraph, hvalid, fun hfresh => ?_⟩
  refine hfresh extraction (of_decide_eq_true hruns) (by decide +kernel)
    (layoutScope { region := "solid".toList }) (by decide +kernel) (of_decide_eq_true hreused) none
    (by decide +kernel) "constant/triSurface".toList (by decide +kernel) ?_
  have hdepends : ((dependencies plainHost smallCase [snappedSolid] "solid".toList).toOption.any
      fun found => found.1.any (pathOverlap "constant/triSurface".toList)) = true := by
    decide +kernel
  cases hfound : dependencies plainHost smallCase [snappedSolid] "solid".toList with
  | error e =>
    rw [hfound] at hdepends
    cases hdepends
  | ok found =>
    rw [hfound] at hdepends
    exact ⟨[snappedSolid], found, by rfl, hfound, List.any_eq_true.1 hdepends⟩

end Engineering
end OpenFoamAgent
