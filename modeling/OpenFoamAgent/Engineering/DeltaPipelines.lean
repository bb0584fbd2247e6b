/-
# The pipeline of a delta graph

What a valid delta graph promises beside its edits: the native commands may run
in the phase of the edit, find their dictionaries and stand behind their
producers, each affected scope is checked once, the manifest is covered, and the
transaction passes its preflight (`soundDelta_iff`).

Two things can go wrong. A scope that is declared twice is checked twice. And the
compilation drops a tracked file whatever else its path is registered as, while
the transaction refuses to drop a user asset.
-/
import OpenFoamAgent.Engineering.CaseBuildGraph
import OpenFoamAgent.Engineering.DeltaOutcomes

namespace OpenFoamAgent
namespace Engineering

open Python Schemas Workspace

/-! ### What the graph promises -/

/-- What a delta graph promises of its pipeline, its manifest and its transaction. -/
structure SoundDelta (host : Host) (w : CaseWorkspace) (plan : EngineeringPlan)
    (delta : CaseDelta) (graph : CaseDeltaGraph) : Prop where
  checked : ∀ scope ∈ executionScopes plan, scopeKey scope ∈ graph.affectedMeshScopeKeys →
    graph.nativePipeline.count (meshCheck scope) = 1
  /-- The mesh checks stand last, each for an affected scope. -/
  checks : ∃ strategy checks, graph.nativePipeline = strategy ++ checks ∧
    (∀ item ∈ strategy, item.command ≠ "checkMesh".toList) ∧
    ∀ item ∈ checks, ∃ scope ∈ executionScopes plan,
      scopeKey scope ∈ graph.affectedMeshScopeKeys ∧ item = meshCheck scope
  runnable : ∀ item ∈ graph.nativePipeline, Runnable delta.phase graph.effectivePaths item
  manifest : ∀ path ∈ plan.requiredCaseFiles, path ∈ graph.effectivePaths
  ordered : Ordered plan graph.nativePipeline
  preflight : ∃ drops, w.commitPreflight host graph.changedFiles graph.dropPaths = .ok drops

/-! ### The condition -/

/-- The scopes whose mesh a delta touches, by `affected_mesh_scope_keys` of its edits and of the
commands its hints and edits call for. -/
def touchedScopes (m : MeshHost) (registry : MeshRegistry) (w : CaseWorkspace)
    (plan : EngineeringPlan) (delta : CaseDelta) : List Text :=
  match effectiveView w plan with
  | .error _ => []
  | .ok view =>
    let edited := normalizeEdits view delta
    match compileNative m registry w plan delta (sortedPaths edited.effective.keys)
      (edited.changed.map Prod.fst ++ activeDrops view delta) with
    | .error _ => []
    | .ok native => native.affected

/-- No scope that the delta touches is declared twice, and no file it drops is tracked under a
text that is registered for a user asset. -/
structure DistinctDelta (m : MeshHost) (registry : MeshRegistry) (w : CaseWorkspace)
    (plan : EngineeringPlan) (delta : CaseDelta) : Prop where
  scopes : (((executionScopes plan).map scopeKey).filter
    (· ∈ touchedScopes m registry w plan delta)).Nodup
  drops : ∀ d ∈ delta.dropPaths, d ∈ w.authoredPaths → w.tree.isFile (locate d) →
    stripBy (· == '/') d ∉ w.assetPaths ∧ stripBy (· == '/') d ∈ w.authoredPaths

/-! ### The commands -/

variable {m : MeshHost} {check : HeaderCheck} {registry : MeshRegistry} {w : CaseWorkspace}
  {plan : EngineeringPlan} {delta : CaseDelta} {graph : CaseDeltaGraph} {view : Dict Text Text}
  {native : NativePart} {phase : NativePhase} {paths : List Text}

theorem admissible_of_deltaConsumers {scopes : List ExecutionScope}
    {found : List (Option ExecutionScope × NativeOpenFOAMCommand)}
    (hphase : phase ∈ editPhases) (h : deltaConsumers scopes paths = .ok found) :
    ∀ c ∈ found, Admissible phase paths c.2 := by
  -- without a region the dictionary is that of the contract
  have hplain : ∀ contract ∈ registeredContracts, contract.controllerDeltaConsumer = true →
      requiredDictionary contract.command contract.defaultArguments =
        .ok contract.requiredDictionary := by
    decide +kernel
  intro c hc
  unfold deltaConsumers at h
  obtain ⟨lists, hlists, h⟩ := Traversal.bind_eq_ok.1 h
  obtain rfl := Except.ok.inj h
  obtain ⟨list, hlist, hc⟩ := List.mem_flatten.1 hc
  obtain ⟨contract, hcontract, hlist'⟩ := Traversal.ok_of_mem_mapM hlists hlist
  obtain ⟨hregistered, hdelta⟩ := List.mem_filter.1 hcontract
  have hpermitted := permitted_of_consumer hregistered (.inr hdelta) hphase
  obtain ⟨named, hnamed, hlist'⟩ := Traversal.bind_eq_ok.1 hlist'
  obtain rfl := Except.ok.inj hlist'
  rcases List.mem_append.1 hc with hc | hc
  · split_ifs at hc with hfound
    · obtain rfl := List.mem_singleton.1 hc
      refine ⟨⟨hpermitted.1, fun path hpath _ => ?_⟩, hpermitted.2⟩
      have hdictionary := Except.ok.inj ((hplain contract hregistered hdelta).symm.trans hpath)
      rw [hdictionary] at hfound
      simpa using hfound
    · cases hc
  · obtain ⟨scope, -, hconsumer⟩ := (Traversal.mem_of_filterMapM hnamed).1 hc
    exact admissible_of_consumerOf hpermitted hconsumer

/-- The search selects candidates only. -/
theorem ConsumerSearch.mem_visit {s s' : ConsumerSearch}
    {candidate : Option ExecutionScope × NativeOpenFOAMCommand} (h : s.visit candidate = .ok s') :
    ∀ item ∈ s'.selected, item ∈ s.selected ∨ item = candidate.2 := by
  obtain ⟨scope, invocation⟩ := candidate
  unfold visit at h
  dsimp only at h
  split_ifs at h with hseen
  · obtain rfl := Except.ok.inj h
    exact fun item hitem => .inl hitem
  · split at h
    · cases h
    · split_ifs at h
      · obtain rfl := Except.ok.inj h
        intro item hitem
        exact (List.mem_append.1 hitem).imp_right List.mem_singleton.1
      · obtain rfl := Except.ok.inj h
        exact fun item hitem => .inl hitem

theorem ConsumerSearch.mem_converge
    {candidates : List (Option ExecutionScope × NativeOpenFOAMCommand)} {passes : ℕ}
    {s s' : ConsumerSearch} (h : converge candidates passes s = .ok s') :
    ∀ item ∈ s'.selected, item ∈ s.selected ∨ item ∈ candidates.map Prod.snd := by
  induction passes generalizing s with
  | zero =>
    obtain rfl := Except.ok.inj h
    exact fun item hitem => .inl hitem
  | succ passes ih =>
    unfold converge at h
    obtain ⟨t, ht, h⟩ := Traversal.bind_eq_ok.1 h
    have hpass : ∀ item ∈ t.selected, item ∈ s.selected ∨ item ∈ candidates.map Prod.snd := by
      refine Traversal.foldlM_induct (P := fun done u => ∀ item ∈ u.selected,
        item ∈ s.selected ∨ item ∈ done.map Prod.snd) ht (fun item hitem => .inl hitem) ?_
      intro done candidate _ u u' hu hvisit item hitem
      rw [List.map_append, List.mem_append]
      rcases mem_visit hvisit item hitem with hold | rfl
      · exact (hu item hold).imp_right .inl
      · exact .inr (.inr (List.mem_singleton.2 rfl))
    split_ifs at h
    · obtain rfl := Except.ok.inj h
      exact hpass
    · intro item hitem
      rcases ih h item hitem with hold | hnew
      · exact hpass item hold
      · exact .inr hnew

/-- The consumers of an edit may run. -/
theorem admissible_of_autoConsumersForDelta {changed : List Text}
    {explicit found : List NativeOpenFOAMCommand} (hphase : phase ∈ editPhases)
    (h : autoConsumersForDelta plan paths changed explicit = .ok found) :
    ∀ item ∈ found, Admissible phase paths item := by
  unfold autoConsumersForDelta at h
  obtain ⟨auto, hauto, h⟩ := Traversal.bind_eq_ok.1 h
  obtain ⟨scopes, -, h⟩ := Traversal.bind_eq_ok.1 h
  obtain ⟨shared, hshared, h⟩ := Traversal.bind_eq_ok.1 h
  obtain ⟨outputs, -, h⟩ := Traversal.bind_eq_ok.1 h
  obtain ⟨keys, -, h⟩ := Traversal.bind_eq_ok.1 h
  obtain ⟨candidates, hcandidates, h⟩ := Traversal.bind_eq_ok.1 h
  obtain ⟨s, hs, h⟩ := Traversal.bind_eq_ok.1 h
  obtain rfl := Except.ok.inj h
  intro item hitem
  have hmem := (ConsumerSearch.mem_converge hs item hitem).resolve_left List.not_mem_nil
  obtain ⟨c, hc, rfl⟩ := List.mem_map.1 hmem
  rcases List.mem_append.1 (Traversal.mem_of_filterM hcandidates hc) with hc | hc
  · exact admissible_of_autoMeshConsumers hphase hauto c hc
  · exact admissible_of_deltaConsumers hphase hshared c hc

/-- A hint that is taken up may run, and is no finalizer. -/
theorem admissible_of_admitHint {hints : List NativeOpenFOAMCommand}
    {s : List NativeOpenFOAMCommand × List DeltaWarning}
    (h : hints.foldlM (admitHint phase paths) ([], []) = .ok s) :
    ∀ item ∈ s.1, Admissible phase paths item := by
  refine Traversal.foldlM_induct (P := fun _ (t : List NativeOpenFOAMCommand × List DeltaWarning) =>
    ∀ item ∈ t.1, Admissible phase paths item) h (by simp) ?_
  intro done hint _ t t' ht hstep
  unfold admitHint at hstep
  split_ifs at hstep with howned hpermitted
  · obtain rfl := Except.ok.inj hstep
    exact ht
  · obtain rfl := Except.ok.inj hstep
    exact ht
  · have hphase : commandPermitted hint.command phase = true := by simpa using hpermitted
    have hplain : isFinalizer hint = false := by
      rw [← Bool.not_eq_true]
      intro hfinal
      refine howned ?_
      rw [isFinalizer_iff.1 hfinal]
      decide
    have hnew : ∀ item ∈ t.1 ++ [hint], (∀ path, requiredDictionary hint.command hint.arguments =
        .ok (some path) → path ≠ [] → path ∈ paths) →
        Admissible phase paths item := by
      intro item hitem hdictionary
      rcases List.mem_append.1 hitem with hold | hlast
      · exact ht item hold
      · obtain rfl := List.mem_singleton.1 hlast
        exact ⟨⟨hphase, hdictionary⟩, hplain⟩
    split at hstep
    · cases hstep
    · rename_i hnone
      obtain rfl := Except.ok.inj hstep
      refine fun item hitem => hnew item hitem fun path hpath => ?_
      cases hnone.symm.trans hpath
    · rename_i required hrequired
      split_ifs at hstep with hstale
      · obtain rfl := Except.ok.inj hstep
        exact ht
      · obtain rfl := Except.ok.inj hstep
        refine fun item hitem => hnew item hitem fun path hpath hne => ?_
        obtain rfl := Option.some.inj (Except.ok.inj (hrequired.symm.trans hpath))
        by_contra hnot
        exact hstale ⟨hne, hnot⟩

/-! ### The pipeline -/

theorem dedupeNative_eq (seen : List (Text × List Text)) (items : List NativeOpenFOAMCommand) :
    dedupeNative seen items = Repetitions.firstByKey commandToken seen items := by
  induction items generalizing seen with
  | nil => rfl
  | cons item items ih =>
    rw [dedupeNative, Repetitions.firstByKey]
    simp only [List.contains_iff_mem]
    split_ifs
    · exact ih seen
    · rw [ih]

theorem mem_of_mem_dedupeNative {seen : List (Text × List Text)}
    {items : List NativeOpenFOAMCommand} {item : NativeOpenFOAMCommand}
    (h : item ∈ dedupeNative seen items) : item ∈ items := by
  rw [dedupeNative_eq] at h
  exact (Repetitions.firstByKey_sublist _ _ _).subset h

/-- The two parts of a compiled pipeline. -/
structure Compiles (plan : EngineeringPlan) (phase : NativePhase) (paths : List Text)
    (native : NativePart) (strategy : List NativeOpenFOAMCommand) : Prop where
  pipeline : native.pipeline = strategy ++
    ((executionScopes plan).filter fun scope => scopeKey scope ∈ native.affected).map meshCheck
  admissible : ∀ item ∈ strategy, Admissible phase paths item
  ordered : Ordered plan strategy

/-- The strategy with the mesh checks: what is no finalizer in it, and the finalizers. -/
theorem withMeshChecks_eq_ok {strategy checked : List NativeOpenFOAMCommand} {affected : List Text}
    (hplain : ∀ item ∈ strategy, isFinalizer item = false)
    (h : withMeshChecks plan strategy affected = .ok checked) :
    checked.filter (!isFinalizer ·) = strategy ∧
      checked.filter (isFinalizer ·) =
        ((executionScopes plan).filter fun scope => scopeKey scope ∈ affected).map meshCheck := by
  have hkept : strategy.filter (!isFinalizer ·) = strategy :=
    List.filter_eq_self.2 fun item hitem => by rw [hplain item hitem]; rfl
  have hnone : strategy.filter (isFinalizer ·) = [] :=
    List.filter_eq_nil_iff.2 fun item hitem => by rw [hplain item hitem]; decide
  unfold withMeshChecks at h
  split_ifs at h with haffected
  · obtain rfl := Except.ok.inj h
    subst haffected
    refine ⟨hkept, ?_⟩
    rw [hnone, List.filter_eq_nil_iff.2 (by simp)]
    rfl
  · rcases hchecks : finalMeshValidationCommands plan affected with e | checks
    · rw [hchecks] at h
      cases h
    · rw [hchecks] at h
      obtain rfl := Except.ok.inj h
      have hfinal : ∀ item ∈ checks, isFinalizer item = true := by
        rw [finalMeshValidationCommands_eq_ok hchecks]
        intro item hitem
        obtain ⟨scope, -, rfl⟩ := List.mem_map.1 hitem
        exact isFinalizer_meshCheck scope
      rw [hkept, List.filter_append, List.filter_append, hkept, hnone,
        List.filter_eq_nil_iff.2 fun item hitem => by rw [hfinal item hitem]; decide,
        List.filter_eq_self.2 hfinal, finalMeshValidationCommands_eq_ok hchecks]
      exact ⟨List.append_nil _, rfl⟩

theorem compiles_of_compileNative {inputs : List Text} (hphase : delta.phase ∈ editPhases)
    (h : compileNative m registry w plan delta paths inputs = .ok native)
    (hbound : native.failures = []) :
    ∃ strategy, Compiles plan delta.phase paths native strategy := by
  unfold compileNative at h
  simp only [Traversal.bind_eq_ok, raiseScope_eq_ok] at h
  obtain ⟨hints, -, ⟨hinted, warnings⟩, hhinted, ⟨affected, unbound⟩, -, checked, hchecked, h⟩ := h
  dsimp only at hchecked h
  rcases horder : stableDependencyOrder plan (dedupeNative [] (checked.filter (!isFinalizer ·)))
    with ⟨ordered, ordering⟩
  rw [horder] at h
  obtain rfl := Except.ok.inj h
  simp only [List.append_eq_nil_iff] at hbound
  obtain ⟨⟨hcompiled, -⟩, rfl⟩ := hbound
  rcases hinferred : autoConsumersForDelta plan paths inputs hinted with e | found
  · rw [hinferred] at hcompiled
    cases hcompiled
  · rw [hinferred] at hchecked
    have hadmissible : ∀ item ∈ dedupeNative [] (hinted ++ found),
        Admissible delta.phase paths item := by
      intro item hitem
      rcases List.mem_append.1 (mem_of_mem_dedupeNative hitem) with hmem | hmem
      · exact admissible_of_admitHint hhinted item hmem
      · exact admissible_of_autoConsumersForDelta hphase hinferred item hmem
    obtain ⟨hplain, hfinal⟩ := withMeshChecks_eq_ok (fun item hitem => (hadmissible item hitem).2)
      hchecked
    obtain ⟨hperm, hordered⟩ := ordered_of_stableDependencyOrder horder
    refine ⟨ordered, ?_, fun item hitem => ?_, hordered⟩
    · dsimp only
      rw [hfinal]
    · have hmem := mem_of_mem_dedupeNative (hperm.mem_iff.1 hitem)
      rw [hplain] at hmem
      exact hadmissible item hmem

theorem runnable_meshCheck (scope : ExecutionScope) (hphase : phase ∈ editPhases) :
    Runnable phase paths (meshCheck scope) := by
  have hpermitted : ∀ phase ∈ editPhases,
      commandPermitted "checkMesh".toList phase = true := by
    decide +kernel
  have hnone : (nativeToolContract "checkMesh".toList).requiredDictionary = none := by
    decide +kernel
  refine ⟨hpermitted phase hphase, fun path hpath => ?_⟩
  have hoverride : dictOverride (meshCheck scope).arguments = none := by
    unfold meshCheck dictOverride
    rcases scope.name with _ | name
    · rfl
    · simp
  unfold requiredDictionary at hpath
  rw [hoverride] at hpath
  dsimp only at hpath
  split at hpath
  · cases hpath
  · cases (Except.ok.inj hpath).symm.trans hnone
  · have hdictionary := Except.ok.inj hpath
    rw [show (meshCheck scope).command = "checkMesh".toList from rfl, hnone] at hdictionary
    cases hdictionary

/-! ### The drops -/

/-- A drop that is taken up is tracked: a required file may not go. -/
theorem Compiled.dropped (h : Compiled m registry w plan delta graph view native) {d : Text}
    (hd : d ∈ graph.dropPaths) :
    d ∈ w.authoredPaths ∧ ∃ l, w.resolveCasePath d true = .ok l := by
  obtain ⟨-, hknown, hfile⟩ := h.mem_drops.1 hd
  have hauthored : d ∈ w.authoredPaths := by
    refine hknown.resolve_right fun hrequired => ?_
    have heffective := h.manifest d hrequired
    rw [h.paths, sortedPaths, (List.perm_insertionSort _ _).mem_iff, List.mem_dedup] at heffective
    rw [h.drops] at hd
    have hn := normalized_of_edits h.edits
    rcases (hn.effective d).1 heffective with ⟨-, hkept⟩ | hchanged
    · exact hkept hd
    · exact hn.dropped d hd hchanged
  refine ⟨hauthored, ?_⟩
  have hview := h.view_eq
  unfold effectiveView at hview
  obtain ⟨authored, hlisted, -⟩ := Traversal.bind_eq_ok.1 hview
  obtain ⟨o, ho⟩ := Traversal.ok_of_filterMapM hlisted (OrderedSet.mem_def.1 hauthored)
  obtain ⟨l, hl, -⟩ := Traversal.bind_eq_ok.1 ho
  obtain ⟨rfl, -⟩ := CaseWorkspace.resolveCasePath_eq_ok hl
  exact ⟨_, CaseWorkspace.resolveCasePath_of_isFile hl hfile⟩

/-- The transaction of a valid graph passes its preflight exactly when no drop that is taken up
names a user asset. -/
theorem Compiled.preflight_iff (h : Compiled m registry w plan delta graph view native) :
    (∃ drops, w.commitPreflight m.host graph.changedFiles graph.dropPaths = .ok drops) ↔
      ∀ d ∈ delta.dropPaths, d ∈ w.authoredPaths → w.tree.isFile (locate d) →
        stripBy (· == '/') d ∉ w.assetPaths ∧ stripBy (· == '/') d ∈ w.authoredPaths := by
  rw [CaseWorkspace.commitPreflight_isOk_iff h.bundle fun d hd => (h.dropped hd).2]
  constructor
  · exact fun hall d hd hauthored hfile => hall d (h.mem_drops.2 ⟨hd, .inl hauthored, hfile⟩)
  · intro hall d hd
    obtain ⟨hrequested, -, hfile⟩ := h.mem_drops.1 hd
    exact hall d hrequested (h.dropped hd).1 hfile

/-! ### What the graph is worth -/

theorem Compiled.touchedScopes_eq (h : Compiled m registry w plan delta graph view native) :
    touchedScopes m registry w plan delta = native.affected := by
  have hnative := h.native_eq
  rw [h.paths, h.changed, h.drops] at hnative
  unfold touchedScopes
  rw [h.view_eq]
  dsimp only
  rw [hnative]

theorem mem_affected (h : Compiled m registry w plan delta graph view native) {key : Text} :
    key ∈ graph.affectedMeshScopeKeys ↔ key ∈ native.affected := by
  rw [h.affected, sortedPaths, (List.perm_insertionSort _ _).mem_iff, List.mem_dedup]

/-- **What a valid delta graph is worth.** Its commands may run and stand behind their producers,
it checks each affected scope once and covers the manifest, and its transaction passes the
preflight, exactly when no touched scope is declared twice and no tracked file to drop is a user
asset. -/
theorem soundDelta_iff (hphase : delta.phase ∈ [.repair, .runtimeRepair, .strategyRevision])
    (hcompile : compileCaseDeltaGraph m check registry w plan delta = .ok graph)
    (hvalid : graph.Valid) :
    SoundDelta m.host w plan delta graph ↔ DistinctDelta m registry w plan delta := by
  have hedit : delta.phase ∈ editPhases := List.mem_cons_of_mem _ hphase
  obtain ⟨view, native, hgraph⟩ := compiled_of_valid hcompile hvalid
  obtain ⟨strategy, hnative⟩ := compiles_of_compileNative hedit hgraph.native_eq hgraph.bound
  have hpipeline := hgraph.pipeline.trans hnative.pipeline
  set touched := (executionScopes plan).filter fun scope => scopeKey scope ∈ native.affected
    with htouched
  have hplain : ∀ item ∈ strategy, item.command ≠ "checkMesh".toList := fun item hitem hcheck => by
    have hfalse := (hnative.admissible item hitem).2
    rw [isFinalizer_iff.2 hcheck] at hfalse
    cases hfalse
  -- the mesh checks, counted
  have hcount : ∀ scope, graph.nativePipeline.count (meshCheck scope) =
      (touched.map meshCheck).count (meshCheck scope) := by
    intro scope
    rw [hpipeline, List.count_append, List.count_eq_zero.2 fun hmem => hplain _ hmem rfl,
      Nat.zero_add]
  have hscopes : (∀ scope ∈ executionScopes plan, scopeKey scope ∈ graph.affectedMeshScopeKeys →
        graph.nativePipeline.count (meshCheck scope) = 1) ↔
      (((executionScopes plan).map scopeKey).filter
        (· ∈ touchedScopes m registry w plan delta)).Nodup := by
    have hkeys : ((executionScopes plan).map scopeKey).filter
        (· ∈ touchedScopes m registry w plan delta) = touched.map scopeKey := by
      rw [hgraph.touchedScopes_eq, List.filter_map]
      rfl
    rw [hkeys, nodup_scopeKey, ← nodup_meshCheck id fun _ _ h => congrArg _ h, List.map_id,
      List.nodup_iff_count_eq_one]
    constructor
    · intro hall item hitem
      obtain ⟨scope, hscope, rfl⟩ := List.mem_map.1 hitem
      obtain ⟨hmem, hkey⟩ := List.mem_filter.1 hscope
      rw [← hcount]
      exact hall scope hmem ((mem_affected hgraph).2 (of_decide_eq_true hkey))
    · intro hall scope hscope hkey
      rw [hcount]
      refine hall _ (List.mem_map_of_mem (List.mem_filter.2 ⟨hscope, ?_⟩))
      exact decide_eq_true ((mem_affected hgraph).1 hkey)
  constructor
  · exact fun h => ⟨hscopes.1 h.checked, hgraph.preflight_iff.1 h.preflight⟩
  · intro h
    refine ⟨hscopes.2 h.scopes, ⟨strategy, _, hpipeline, hplain, fun item hitem => ?_⟩,
      fun item hitem => ?_, hgraph.manifest, ?_, hgraph.preflight_iff.2 h.drops⟩
    · obtain ⟨scope, hscope, rfl⟩ := List.mem_map.1 hitem
      obtain ⟨hmem, hkey⟩ := List.mem_filter.1 hscope
      exact ⟨scope, hmem, (mem_affected hgraph).2 (of_decide_eq_true hkey), rfl⟩
    · rw [hpipeline] at hitem
      rcases List.mem_append.1 hitem with hmem | hmem
      · exact (hnative.admissible item hmem).1
      · obtain ⟨scope, -, rfl⟩ := List.mem_map.1 hmem
        exact runnable_meshCheck scope hedit
    · rw [hpipeline]
      exact hnative.ordered.append_checks _

/-! ### Two layouts of one region -/

/-- A change to the mesh of a region. -/
def boundaryDelta : CaseDelta where
  replacements := [("constant/fluid/polyMesh/boundary".toList, dictionaryText "0();\n")]

/-- A plan with region layouts, which requires no files. -/
def openPlan (regions : List String) : EngineeringPlan :=
  { layoutPlan regions with requiredCaseFiles := [] }

/-- **An affected scope is checked twice** where two layouts name its region. -/
theorem doubled_affected :
    ∃ graph, compileCaseDeltaGraph plainHost (fun _ _ _ => some []) .absent smallCase
        (openPlan ["fluid", "fluid"]) boundaryDelta = .ok graph ∧ graph.Valid ∧
      ∃ scope ∈ executionScopes (openPlan ["fluid", "fluid"]),
        scopeKey scope ∈ graph.affectedMeshScopeKeys ∧
        graph.nativePipeline.count (meshCheck scope) = 2 := by
  have hsettles : (settled (openPlan ["fluid", "fluid"]) boundaryDelta).any (fun s =>
      decide (∃ scope ∈ executionScopes (openPlan ["fluid", "fluid"]),
        scopeKey scope ∈ s.1.affectedMeshScopeKeys ∧
        s.1.nativePipeline.count (meshCheck scope) = 2)) = true := by
    decide +kernel
  obtain ⟨graph, hgraph, hvalid, _, _, _, htwice⟩ := exists_of_settled hsettles
  exact ⟨graph, hgraph, hvalid, of_decide_eq_true htwice⟩

/-- The graph of `soundDelta_iff` for one region. -/
theorem soundDelta_iff_region :
    ∃ graph, compileCaseDeltaGraph plainHost (fun _ _ _ => some []) .absent smallCase
        (openPlan ["fluid"]) boundaryDelta = .ok graph ∧
      SoundDelta plainHost.host smallCase (openPlan ["fluid"]) boundaryDelta graph := by
  have hsettles : (settled (openPlan ["fluid"]) boundaryDelta).any (fun _ => true) = true := by
    decide +kernel
  obtain ⟨graph, hgraph, hvalid, -⟩ := exists_of_settled hsettles
  refine ⟨graph, hgraph, (soundDelta_iff (by decide) hgraph hvalid).2 ⟨?_, by simp [boundaryDelta]⟩⟩
  decide +kernel

end Engineering
end OpenFoamAgent
