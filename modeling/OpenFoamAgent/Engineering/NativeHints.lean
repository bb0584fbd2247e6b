/-
# Malformed and unbindable native hints

What `compile_case_build_graph` and `compile_case_delta_graph` make of hints whose region
cannot be read (`-region` without a name, twice, or beside `-allRegions`) or is not that of
one declared scope. Either compiler reads regions inside `try` blocks that turn an exception
into a failure entry, and once outside: the keys of the explicit commands of a build, and the
dictionary of a hint of a delta. A region that can be read is bound later, and only by some
steps: where a template of the contract mentions the scope, and where two commands or more
are ordered.

`compilers_answer_iff` says for which hints each compiler returns a graph that reports all of
them.
-/
import OpenFoamAgent.Engineering.ReusedScopes

namespace OpenFoamAgent
namespace Engineering

open Python Schemas Workspace

variable {plan : EngineeringPlan} {items : List NativeOpenFOAMCommand}

/-! ### Invocations -/

/-- An invocation that `scope_for_native_arguments` refuses: its region cannot be read, or is not
that of exactly one declared scope. -/
def Unbindable (plan : EngineeringPlan) (item : NativeOpenFOAMCommand) : Prop :=
  ∃ e, scopeForNativeArguments plan item.arguments = .error e

/-- A command that is ordered by the stages of the mesh of its scope. -/
def isStaged (item : NativeOpenFOAMCommand) : Bool :=
  ((nativeToolContract item.command).orderingInputs ++
    (nativeToolContract item.command).orderingOutputs).any (· matches .mesh _)

/-- A failure entry that reports an invocation: it names the command, or says that the strategy
cannot be bound. -/
def DeltaFailure.Reports (command : Text) : DeltaFailure → Prop
  | consumers _ => True
  | unboundScopes _ => True
  | unboundOrder c _ => c = command
  | _ => False

/-- Binding the order fails at a command of this name, which is not the only command. -/
def OrderRefuses {τ : Type} (plan : EngineeringPlan) (token : NativeOpenFOAMCommand → τ)
    (called : NativeOpenFOAMCommand → Prop) (command : Text) : Prop :=
  ∃ item, called item ∧ item.command = command ∧ isStaged item = true ∧ Unbindable plan item ∧
    ∃ other, called other ∧ token other ≠ token item

theorem orderingTokens_eq_error (plan : EngineeringPlan) (item : NativeOpenFOAMCommand)
    (templates : List OrderingLabel) :
    (∃ e, orderingTokens plan item templates = .error e) ↔
      templates.any (· matches .mesh _) = true ∧ Unbindable plan item := by
  unfold orderingTokens Unbindable
  split_ifs with hstaged
  · cases scopeForNativeArguments plan item.arguments with
    | error e => exact iff_of_true ⟨e, rfl⟩ ⟨hstaged, e, rfl⟩
    | ok scope => exact iff_of_false (by simp [Except.map]) (by simp)
  · exact iff_of_false (by simp) fun h => hstaged h.1

/-- The labels of a command cannot be rendered when they mention a scope it is not bound to. -/
theorem orderingLabels_eq_error {item : NativeOpenFOAMCommand} :
    (∃ e, orderingLabels plan item = .error e) ↔ isStaged item = true ∧ Unbindable plan item := by
  have hinputs := orderingTokens_eq_error plan item (nativeToolContract item.command).orderingInputs
  have houtputs :=
    orderingTokens_eq_error plan item (nativeToolContract item.command).orderingOutputs
  unfold isStaged
  rw [List.any_append, Bool.or_eq_true]
  constructor
  · rintro ⟨e, h⟩
    unfold orderingLabels at h
    rcases Traversal.bind_eq_error.1 h with he | ⟨_, -, h⟩
    · exact (hinputs.1 ⟨e, he⟩).imp_left .inl
    · rcases Traversal.bind_eq_error.1 h with he | ⟨_, -, h⟩
      · exact (houtputs.1 ⟨e, he⟩).imp_left .inr
      · cases h
  · rintro ⟨hstaged, hunbindable⟩
    cases hlabels : orderingLabels plan item with
    | error e => exact ⟨e, rfl⟩
    | ok labels =>
      unfold orderingLabels at hlabels
      obtain ⟨_, hin, hlabels⟩ := Traversal.bind_eq_ok.1 hlabels
      obtain ⟨_, hout, -⟩ := Traversal.bind_eq_ok.1 hlabels
      rcases hstaged with hstaged | hstaged
      · obtain ⟨e, he⟩ := hinputs.2 ⟨hstaged, hunbindable⟩
        cases hin.symm.trans he
      · obtain ⟨e, he⟩ := houtputs.2 ⟨hstaged, hunbindable⟩
        cases hout.symm.trans he

/-- The failure of an invocation whose labels are not bound. -/
def unboundOrderOf (plan : EngineeringPlan) (item : NativeOpenFOAMCommand) : Option DeltaFailure :=
  match orderingLabels plan item with
  | .error e => some (.unboundOrder item.command e)
  | .ok _ => none

/-- What `_stable_dependency_order` reports of the commands it orders. -/
theorem unboundOrder_mem {τ : Type} {token : NativeOpenFOAMCommand → τ} [DecidableEq τ]
    (hnodup : (items.map token).Nodup) {command : Text} :
    (∃ e, .unboundOrder command e ∈ (stableDependencyOrder plan items).2) ↔
      OrderRefuses plan token (· ∈ items) command := by
  have hfailures : ∀ e, DeltaFailure.unboundOrder command e ∈ items.filterMap (unboundOrderOf plan) ↔
      ∃ item ∈ items, item.command = command ∧ orderingLabels plan item = .error e := by
    intro e
    rw [List.mem_filterMap]
    refine exists_congr fun item => and_congr_right fun _ => ?_
    rw [unboundOrderOf]
    cases orderingLabels plan item with
    | error e' => simp
    | ok labels => simp
  have hmeets : (∃ e, DeltaFailure.unboundOrder command e ∈ items.filterMap (unboundOrderOf plan)) ↔
      ∃ item ∈ items, item.command = command ∧ isStaged item = true ∧ Unbindable plan item := by
    constructor
    · rintro ⟨e, he⟩
      obtain ⟨item, hitem, hcommand, hlabels⟩ := (hfailures e).1 he
      exact ⟨item, hitem, hcommand, orderingLabels_eq_error.1 ⟨e, hlabels⟩⟩
    · rintro ⟨item, hitem, hcommand, hrefused⟩
      obtain ⟨e, he⟩ := orderingLabels_eq_error.2 hrefused
      exact ⟨e, (hfailures e).2 ⟨item, hitem, hcommand, he⟩⟩
  unfold stableDependencyOrder
  split_ifs with hshort
  · refine iff_of_false (by simp) ?_
    rintro ⟨item, hitem, -, -, -, hother⟩
    have htwo := (Repetitions.two_le_length_iff token hnodup hitem).2 hother
    omega
  · dsimp only
    have hlong : ∀ item ∈ items, ∃ other ∈ items, token other ≠ token item := fun item hitem =>
      (Repetitions.two_le_length_iff token hnodup hitem).1 (by omega)
    have htarget : OrderRefuses plan token (· ∈ items) command ↔
        ∃ item ∈ items, item.command = command ∧ isStaged item = true ∧ Unbindable plan item := by
      refine exists_congr fun item => and_congr_right fun hitem => ?_
      exact ⟨fun h => ⟨h.1, h.2.1, h.2.2.1⟩, fun h => ⟨h.1, h.2.1, h.2.2, hlong item hitem⟩⟩
    rw [htarget, ← hmeets]
    split_ifs with hnone
    · dsimp only
      exact Iff.rfl
    · rw [ne_eq, not_not] at hnone
      refine iff_of_false ?_ ?_
      · split <;> simp
      · rintro ⟨e, he⟩
        exact List.eq_nil_iff_forall_not_mem.1 hnone _ he

/-- The order fails at a command that cannot be bound, or in a cycle. -/
theorem order_failures {failure : DeltaFailure}
    (h : failure ∈ (stableDependencyOrder plan items).2) :
    (∃ command e, failure = .unboundOrder command e) ∨ ∃ commands, failure = .cycle commands := by
  unfold stableDependencyOrder at h
  split_ifs at h
  · cases h
  · dsimp only at h
    split at h
    · obtain ⟨item, -, hitem⟩ := List.mem_filterMap.1 h
      split at hitem
      · rename_i e _
        exact .inl ⟨item.command, e, (Option.some.inj hitem).symm⟩
      · cases hitem
    · split at h
      · cases h
      · exact .inr ⟨_, List.mem_singleton.1 h⟩

/-- What the order reports of its commands. -/
theorem order_reports {τ : Type} {token : NativeOpenFOAMCommand → τ} [DecidableEq τ]
    (hnodup : (items.map token).Nodup) {command : Text} :
    (∃ failure ∈ (stableDependencyOrder plan items).2, failure.Reports command) ↔
      OrderRefuses plan token (· ∈ items) command := by
  rw [← unboundOrder_mem hnodup]
  constructor
  · rintro ⟨failure, hfailure, hreports⟩
    rcases order_failures hfailure with ⟨c, e, rfl⟩ | ⟨commands, rfl⟩
    · obtain rfl : c = command := hreports
      exact ⟨e, hfailure⟩
    · exact hreports.elim
  · rintro ⟨e, he⟩
    exact ⟨_, he, rfl⟩

theorem Unbindable.congr {a b : NativeOpenFOAMCommand} (h : commandToken a = commandToken b) :
    Unbindable plan a ↔ Unbindable plan b := by
  rw [Unbindable, Unbindable, (Prod.mk.inj h).2]

/-- The refusal depends on the tokens of the commands alone. -/
theorem OrderRefuses.congr {τ : Type} {token : NativeOpenFOAMCommand → τ}
    {called called' : NativeOpenFOAMCommand → Prop} {command : Text}
    (htoken : ∀ a b, token a = token b → commandToken a = commandToken b)
    (h : ∀ P : NativeOpenFOAMCommand → Prop, (∀ a b, token a = token b → (P a ↔ P b)) →
      ((∃ item, called item ∧ P item) ↔ ∃ item, called' item ∧ P item)) :
    OrderRefuses plan token called command ↔ OrderRefuses plan token called' command := by
  have hother : ∀ item, (∃ other, called other ∧ token other ≠ token item) ↔
      ∃ other, called' other ∧ token other ≠ token item :=
    fun item => h (fun other => token other ≠ token item) fun a b hab => by rw [hab]
  unfold OrderRefuses
  simp only [hother]
  refine h _ fun a b hab => ?_
  have hcommand : a.command = b.command := (Prod.mk.inj (htoken a b hab)).1
  rw [hab, Unbindable.congr (htoken a b hab), isStaged, isStaged, hcommand]

/-! ### The build graph -/

/-- A failure entry of a build that reports an invocation. -/
def BuildFailure.Reports (command : Text) : BuildFailure → Prop
  | invalidInvocation c _ => c = command
  | order failure => failure.Reports command
  | _ => False

/-- `compile_case_build_graph` returns a graph with a failure entry for every malformed or
unbindable hint. -/
def BuildAnswers (execution : ExecuteCasePlanAction) (candidateBundle : Dict Text Text) : Prop :=
  ∃ graph hints, compileCaseBuildGraph execution candidateBundle = .ok graph ∧
    authoredHints execution.action = .ok hints ∧
    ∀ item ∈ hints, Unbindable execution.plan item →
      ∃ failure ∈ graph.failures, failure.Reports item.command

/-- A command the build calls for: a hint that is no probe or finalizer, may run and finds its
dictionary, or a consumer of an authored dictionary whose command and region no hint has. -/
def BuildCalls (plan : EngineeringPlan) (authored : List Text) (hints : List NativeOpenFOAMCommand)
    (item : NativeOpenFOAMCommand) : Prop :=
  (item ∈ hints ∧ isDocumentary item = false ∧ Admitted authored item) ∨
    ∃ found, autoMeshConsumers plan authored = .ok found ∧ item ∈ found.map Prod.snd ∧
      ∀ hint ∈ hints, isDocumentary hint = false → explicitKey hint ≠ explicitKey item

/-- The regions of the hints that are no probes or finalizers can be read, and every hint that
cannot be bound has the name of a command at which the order is refused. -/
structure BuildAnswerable (execution : ExecuteCasePlanAction)
    (candidateBundle : Dict Text Text) (hints : List NativeOpenFOAMCommand) : Prop where
  hinted : authoredHints execution.action = .ok hints
  regions : ∀ item ∈ hints, isDocumentary item = false →
    ∃ region, nativeCommandRegion item.arguments = .ok region
  ordered : ∀ item ∈ hints, Unbindable execution.plan item →
    OrderRefuses execution.plan invocationToken
      (BuildCalls execution.plan candidateBundle.keys hints) item.command

variable {authored : List Text}

theorem requiredDictionary_of_region (command : Text) {arguments : List Text}
    {region : Option Text} (h : nativeCommandRegion arguments = .ok region) :
    ∃ required, requiredDictionary command arguments = .ok required := by
  unfold requiredDictionary
  split
  · exact ⟨_, rfl⟩
  · rw [h]
    cases region with
    | none => exact ⟨_, rfl⟩
    | some region => exact ⟨_, rfl⟩

/-- A command of the strategy fails when its dictionary cannot be determined, and is kept when it
may run. -/
theorem Admission.mem_step (authored : List Text) (s : Admission) (item : NativeOpenFOAMCommand) :
    (∀ other, other ∈ (s.step authored item).admitted ↔
      other ∈ s.admitted ∨ other = item ∧ Admitted authored item) ∧
    ∀ failure, failure ∈ (s.step authored item).failures ↔ failure ∈ s.failures ∨
      ∃ e, requiredDictionary item.command item.arguments = .error e ∧
        failure = .invalidInvocation item.command e := by
  unfold Admission.step Admitted
  cases hrequired : requiredDictionary item.command item.arguments with
  | error e => simp
  | ok required =>
    dsimp only
    split_ifs with hpermitted
    · have hno : commandPermitted item.command .authoring = false := by simpa using hpermitted
      simp [hno]
    · have hyes : commandPermitted item.command .authoring = true := by simpa using hpermitted
      cases required with
      | none => simp [hyes]
      | some path =>
        dsimp only
        split_ifs with hstale
        · simp [hstale]
        · have hfound : ¬path = [] → path ∈ authored := fun hne => by
            by_contra hnot
            exact hstale ⟨hne, hnot⟩
          simp [hyes, and_iff_left hfound]

theorem Admission.mem_foldl (authored : List Text) (strategy : List NativeOpenFOAMCommand) :
    (∀ item, item ∈ (strategy.foldl (Admission.step authored) {}).admitted ↔
      item ∈ strategy ∧ Admitted authored item) ∧
    ∀ failure, failure ∈ (strategy.foldl (Admission.step authored) {}).failures ↔
      ∃ item ∈ strategy, ∃ e, requiredDictionary item.command item.arguments = .error e ∧
        failure = .invalidInvocation item.command e := by
  induction strategy using List.reverseRecOn with
  | nil => simp
  | append_singleton strategy item ih =>
    rw [List.foldl_append, List.foldl_cons, List.foldl_nil]
    obtain ⟨hadmitted, hfailures⟩ :=
      Admission.mem_step authored (strategy.foldl (Admission.step authored) {}) item
    refine ⟨fun other => ?_, fun failure => ?_⟩
    · rw [hadmitted, ih.1, List.mem_append, List.mem_singleton, or_and_right]
      refine or_congr_right ⟨?_, ?_⟩
      · rintro ⟨rfl, h⟩
        exact ⟨rfl, h⟩
      · rintro ⟨rfl, h⟩
        exact ⟨rfl, h⟩
    · rw [hfailures, ih.2]
      constructor
      · rintro (⟨other, hother, h⟩ | h)
        · exact ⟨other, List.mem_append_left _ hother, h⟩
        · exact ⟨item, List.mem_append_right _ (List.mem_singleton_self _), h⟩
      · rintro ⟨other, hother, h⟩
        rcases List.mem_append.1 hother with hold | hlast
        · exact .inl ⟨other, hold, h⟩
        · exact .inr (List.mem_singleton.1 hlast ▸ h)

variable {hints inferred strategy : List NativeOpenFOAMCommand}

theorem explicitKey_of_invocationToken {a b : NativeOpenFOAMCommand}
    (h : invocationToken a = invocationToken b) : explicitKey a = explicitKey b := by
  obtain ⟨hcommand, hrest⟩ := Prod.mk.inj h
  rw [explicitKey, explicitKey, hcommand, (Prod.mk.inj hrest).1]

theorem explicitKey_eq_ok {item : NativeOpenFOAMCommand} :
    (∃ key, explicitKey item = .ok key) ↔
      ∃ region, nativeCommandRegion item.arguments = .ok region := by
  unfold explicitKey
  cases nativeCommandRegion item.arguments <;> simp [Except.map]

/-- The strategy can be compiled when the regions of its hints can be read. -/
theorem authoredStrategy_returns
    (hinferred : ∀ item ∈ inferred, ∃ region, nativeCommandRegion item.arguments = .ok region) :
    (∃ strategy, authoredStrategy hints inferred = .ok strategy) ↔
      ∀ item ∈ hints, isDocumentary item = false →
        ∃ region, nativeCommandRegion item.arguments = .ok region := by
  constructor
  · rintro ⟨strategy, h⟩ item hitem hplain
    unfold authoredStrategy at h
    obtain ⟨keys, hkeys, -⟩ := Traversal.bind_eq_ok.1 h
    have hmem : item ∈ hints.filter (!isDocumentary ·) :=
      List.mem_filter.2 ⟨hitem, by rw [hplain]; rfl⟩
    obtain ⟨kept, hkept, htoken⟩ := (Repetitions.exists_mem_firstByKey invocationToken
      (P := fun other => invocationToken other = invocationToken item)
      fun a b hab => by rw [hab]).2 ⟨item, hmem, rfl⟩
    obtain ⟨key, -, hkey⟩ := Traversal.exists_mem_of_mapM hkeys hkept
    exact explicitKey_eq_ok.1 ⟨key, explicitKey_of_invocationToken htoken ▸ hkey⟩
  · intro hregions
    obtain ⟨keys, hkeys⟩ : ∃ keys,
        (dedupeInvocations (hints.filter (!isDocumentary ·))).mapM explicitKey = .ok keys := by
      refine Traversal.mapM_progress fun item hitem => explicitKey_eq_ok.2 ?_
      obtain ⟨hmem, hplain⟩ :=
        List.mem_filter.1 ((Repetitions.firstByKey_sublist _ _ _).subset hitem)
      exact hregions item hmem (by simpa using hplain)
    have hkept : (inferred.filterM fun item =>
        (explicitKey item).map fun key => !keys.contains key) =
        .ok (inferred.filter fun item =>
          ((explicitKey item).map fun key => !keys.contains key).toOption.getD false) := by
      refine Traversal.filterM_eq_ok fun item hitem => ?_
      obtain ⟨key, hkey⟩ := explicitKey_eq_ok.2 (hinferred item hitem)
      rw [hkey]
      rfl
    exact ⟨_, Traversal.bind_eq_ok.2 ⟨keys, hkeys, Traversal.bind_eq_ok.2 ⟨_, hkept, rfl⟩⟩⟩

/-- What depends on tokens alone holds of a command of the strategy when it holds of a hint that
is no probe or finalizer, or of an inferred command that no hint stands for. -/
theorem exists_mem_authoredStrategy {P : NativeOpenFOAMCommand → Prop}
    (h : authoredStrategy hints inferred = .ok strategy)
    (hinferred : ∀ item ∈ inferred, ∃ region, nativeCommandRegion item.arguments = .ok region)
    (hP : ∀ a b, invocationToken a = invocationToken b → (P a ↔ P b)) :
    (∃ item ∈ strategy, P item) ↔
      (∃ item ∈ hints, isDocumentary item = false ∧ P item) ∨
        ∃ item ∈ inferred, (∀ hint ∈ hints, isDocumentary hint = false →
          explicitKey hint ≠ explicitKey item) ∧ P item := by
  unfold authoredStrategy at h
  obtain ⟨keys, hkeys, h⟩ := Traversal.bind_eq_ok.1 h
  obtain ⟨kept, hkept, h⟩ := Traversal.bind_eq_ok.1 h
  obtain rfl := Except.ok.inj h
  have hplain : ∀ item, item ∈ hints.filter (!isDocumentary ·) ↔
      item ∈ hints ∧ isDocumentary item = false := by
    intro item
    rw [List.mem_filter, Bool.not_eq_true']
  have hstands : ∀ item ∈ inferred, ((((explicitKey item).map fun key =>
      !keys.contains key).toOption.getD false) = true ↔
        ∀ hint ∈ hints, isDocumentary hint = false → explicitKey hint ≠ explicitKey item) := by
    intro item hitem
    obtain ⟨key, hkey⟩ := explicitKey_eq_ok.2 (hinferred item hitem)
    have hkeysMem : key ∈ keys ↔
        ∃ hint ∈ hints.filter (!isDocumentary ·), explicitKey hint = .ok key := by
      rw [← Repetitions.exists_mem_firstByKey invocationToken
        fun a b hab => by rw [explicitKey_of_invocationToken hab]]
      constructor
      · exact Traversal.ok_of_mem_mapM hkeys
      · rintro ⟨hint, hhint, hok⟩
        obtain ⟨key', hmem, hok'⟩ := Traversal.exists_mem_of_mapM hkeys hhint
        exact Except.ok.inj (hok.symm.trans hok') ▸ hmem
    rw [hkey]
    simp only [Except.map, Except.toOption, Option.getD_some, Bool.not_eq_true',
      List.contains_eq_mem, decide_eq_false_iff_not, hkeysMem]
    constructor
    · intro hnot hint hhint hdoc heq
      exact hnot ⟨hint, (hplain hint).2 ⟨hhint, hdoc⟩, heq⟩
    · rintro hall ⟨hint, hhint, heq⟩
      obtain ⟨hmem, hdoc⟩ := (hplain hint).1 hhint
      exact hall hint hmem hdoc heq
  unfold dedupeInvocations
  rw [Repetitions.exists_mem_firstByKey invocationToken hP, Traversal.filter_of_filterM hkept]
  constructor
  · rintro ⟨item, hitem, hitemP⟩
    rcases List.mem_append.1 hitem with hmem | hmem
    · obtain ⟨hmem, hdoc⟩ := (hplain item).1 ((Repetitions.firstByKey_sublist _ _ _).subset hmem)
      exact .inl ⟨item, hmem, hdoc, hitemP⟩
    · obtain ⟨hmem, hkeep⟩ := List.mem_filter.1 hmem
      exact .inr ⟨item, hmem, (hstands item hmem).1 hkeep, hitemP⟩
  · rintro (⟨item, hitem, hdoc, hitemP⟩ | ⟨item, hitem, hstand, hitemP⟩)
    · obtain ⟨other, hother, hotherP⟩ := (Repetitions.exists_mem_firstByKey invocationToken hP).2
        ⟨item, (hplain item).2 ⟨hitem, hdoc⟩, hitemP⟩
      exact ⟨other, List.mem_append_left _ hother, hotherP⟩
    · exact ⟨item, List.mem_append_right _
        (List.mem_filter.2 ⟨hitem, (hstands item hitem).2 hstand⟩), hitemP⟩

theorem mem_inferred {paths : List Text} {item : NativeOpenFOAMCommand} :
    item ∈ ((autoMeshConsumers plan paths).toOption.getD []).map Prod.snd ↔
      ∃ found, autoMeshConsumers plan paths = .ok found ∧ item ∈ found.map Prod.snd := by
  cases autoMeshConsumers plan paths with
  | error e => simp [Except.toOption]
  | ok found => simp [Except.toOption]

theorem Admitted.congr {a b : NativeOpenFOAMCommand} (h : commandToken a = commandToken b) :
    Admitted authored a ↔ Admitted authored b := by
  obtain ⟨hcommand, harguments⟩ := Prod.mk.inj h
  rw [Admitted, Admitted, hcommand, harguments]

/-- The region of a consumer of an authored dictionary can be read, and it may run. -/
theorem admitted_of_inferred {item : NativeOpenFOAMCommand}
    (h : item ∈ ((autoMeshConsumers plan authored).toOption.getD []).map Prod.snd) :
    (∃ region, nativeCommandRegion item.arguments = .ok region) ∧ isFinalizer item = false ∧
      Admitted authored item := by
  obtain ⟨found, hfound, hitem⟩ := mem_inferred.1 h
  obtain ⟨c, hc, rfl⟩ := List.mem_map.1 hitem
  obtain ⟨found', hfound', hall⟩ :=
    autoMeshConsumers_eq_ok authored (scopesReadable_of_autoMeshConsumers hfound)
  obtain ⟨region, hregion⟩ := (hall c (Except.ok.inj (hfound.symm.trans hfound') ▸ hc)).region
  have hphase : NativePhase.authoring ∈ editPhases := by decide
  obtain ⟨⟨hpermitted, hfinds⟩, hplain⟩ := admissible_of_autoMeshConsumers hphase hfound c hc
  obtain ⟨required, hrequired⟩ := requiredDictionary_of_region c.2.command hregion
  refine ⟨⟨region, hregion⟩, hplain, hpermitted, required, hrequired, fun path hpath hne => ?_⟩
  exact hfinds path (by rw [hrequired, Option.mem_def.1 hpath]) hne

theorem commandToken_of_invocationToken {a b : NativeOpenFOAMCommand}
    (h : invocationToken a = invocationToken b) : commandToken a = commandToken b := by
  obtain ⟨hcommand, hrest⟩ := Prod.mk.inj h
  rw [commandToken, commandToken, hcommand, (Prod.mk.inj hrest).1]

variable {execution : ExecuteCasePlanAction} {candidateBundle : Dict Text Text}
  {graph : CaseBuildGraph}

theorem not_reports_of_failureOf {α : Type} {failure : ScopeError → BuildFailure}
    {r : Except ScopeError α} {f : BuildFailure} {command : Text}
    (h : ∀ e, ¬ (failure e).Reports command) (hf : f ∈ failureOf failure r) :
    ¬ f.Reports command := by
  cases r with
  | ok a => cases hf
  | error e =>
    obtain rfl := List.mem_singleton.1 hf
    exact h e

/-- The failures of a build that report an invocation are those of the admission and those of the
order. -/
theorem reports_of_failures {required missing : List Text} {α β : Type} {c : Except ScopeError α}
    {m : Except ScopeError β} {admitted : List BuildFailure} {order : List DeltaFailure}
    {command : Text} :
    (∃ failure ∈ ((if required = [] then [BuildFailure.emptyManifest] else []) ++
        failureOf .consumers c ++ admitted ++ order.map BuildFailure.order ++
        (if missing = [] then [] else [BuildFailure.incompleteManifest missing]) ++
        failureOf .meshChecks m).eraseDups, failure.Reports command) ↔
      (∃ failure ∈ admitted, failure.Reports command) ∨
        ∃ failure ∈ order, failure.Reports command := by
  simp only [List.mem_eraseDups, List.mem_append]
  constructor
  · rintro ⟨failure, ((((h | h) | h) | h) | h) | h, hreports⟩
    · split_ifs at h
      · obtain rfl := List.mem_singleton.1 h
        exact hreports.elim
      · cases h
    · exact absurd hreports (not_reports_of_failureOf (by rintro _ ⟨⟩) h)
    · exact .inl ⟨failure, h, hreports⟩
    · obtain ⟨f, hf, rfl⟩ := List.mem_map.1 h
      exact .inr ⟨f, hf, hreports⟩
    · split_ifs at h
      · cases h
      · obtain rfl := List.mem_singleton.1 h
        exact hreports.elim
    · exact absurd hreports (not_reports_of_failureOf (by rintro _ ⟨⟩) h)
  · rintro (⟨failure, h, hreports⟩ | ⟨failure, h, hreports⟩)
    · exact ⟨failure, .inl (.inl (.inl (.inr h))), hreports⟩
    · exact ⟨.order failure, .inl (.inl (.inr (List.mem_map_of_mem h))), hreports⟩

/-- Which invocations a build reports. -/
theorem build_reports_iff
    (hhints : authoredHints execution.action = .ok hints)
    (hstrategy : authoredStrategy hints (((autoMeshConsumers execution.plan
      candidateBundle.keys).toOption.getD []).map Prod.snd) = .ok strategy) :
    ∃ graph, compileCaseBuildGraph execution candidateBundle = .ok graph ∧ ∀ command,
      (∃ failure ∈ graph.failures, failure.Reports command) ↔
        OrderRefuses execution.plan invocationToken
          (BuildCalls execution.plan candidateBundle.keys hints) command := by
  set inferred := ((autoMeshConsumers execution.plan
    candidateBundle.keys).toOption.getD []).map Prod.snd with hinferred
  have hcompiled : ∀ item ∈ inferred,
      (∃ region, nativeCommandRegion item.arguments = .ok region) ∧ isFinalizer item = false ∧
        Admitted candidateBundle.keys item := fun item => admitted_of_inferred
  have hregions : ∀ item ∈ inferred, ∃ region, nativeCommandRegion item.arguments = .ok region :=
    fun item hitem => (hcompiled item hitem).1
  have hreadable := (authoredStrategy_returns hregions).1 ⟨strategy, hstrategy⟩
  obtain ⟨hadmitted, hrefused⟩ := Admission.mem_foldl candidateBundle.keys strategy
  refine ⟨_, Traversal.bind_eq_ok.2 ⟨hints, hhints, Traversal.bind_eq_ok.2 ⟨strategy, hstrategy,
    rfl⟩⟩, fun command => ?_⟩
  dsimp only
  rw [reports_of_failures]
  have hdictionaries : ∀ item ∈ strategy, ∀ e,
      requiredDictionary item.command item.arguments ≠ .error e := by
    intro item hitem e he
    have hsome : ∃ item ∈ strategy, ∃ e, requiredDictionary item.command item.arguments =
        .error e := ⟨item, hitem, e, he⟩
    rw [exists_mem_authoredStrategy hstrategy hregions] at hsome
    · rcases hsome with ⟨hint, hhint, hplain, e, he⟩ | ⟨consumer, hconsumer, -, e, he⟩
      · obtain ⟨region, hregion⟩ := hreadable hint hhint hplain
        obtain ⟨required, hrequired⟩ := requiredDictionary_of_region hint.command hregion
        cases hrequired.symm.trans he
      · obtain ⟨region, hregion⟩ := hregions consumer hconsumer
        obtain ⟨required, hrequired⟩ :=
          requiredDictionary_of_region consumer.command hregion
        cases hrequired.symm.trans he
    · intro a b hab
      obtain ⟨hcommand, harguments⟩ := Prod.mk.inj (commandToken_of_invocationToken hab)
      rw [hcommand, harguments]
  have hnodup : ((strategy.foldl (Admission.step candidateBundle.keys) {}).admitted.map
      invocationToken).Nodup := by
    have hstrategyNodup := (authoredStrategy_eq_ok hstrategy
      fun item hitem => (hcompiled item hitem).2.1).1
    exact hstrategyNodup.sublist
      ((Admission.admitted_foldl candidateBundle.keys strategy).1.map invocationToken)
  have hcalls : OrderRefuses execution.plan invocationToken
      (· ∈ (strategy.foldl (Admission.step candidateBundle.keys) {}).admitted) command ↔
      OrderRefuses execution.plan invocationToken
        (BuildCalls execution.plan candidateBundle.keys hints) command := by
    refine OrderRefuses.congr (fun a b => commandToken_of_invocationToken) fun P hP => ?_
    have hinvariant : ∀ a b, invocationToken a = invocationToken b →
        (Admitted candidateBundle.keys a ∧ P a ↔ Admitted candidateBundle.keys b ∧ P b) :=
      fun a b hab => and_congr (Admitted.congr (commandToken_of_invocationToken hab)) (hP a b hab)
    simp only [hadmitted, and_assoc]
    rw [exists_mem_authoredStrategy hstrategy hregions hinvariant]
    constructor
    · rintro (⟨item, hitem, hplain, hrun, hitemP⟩ | ⟨item, hitem, hstand, -, hitemP⟩)
      · exact ⟨item, .inl ⟨hitem, hplain, hrun⟩, hitemP⟩
      · obtain ⟨found, hfound, hmem⟩ := mem_inferred.1 hitem
        exact ⟨item, .inr ⟨found, hfound, hmem, hstand⟩, hitemP⟩
    · rintro ⟨item, ⟨hitem, hplain, hrun⟩ | ⟨found, hfound, hmem, hstand⟩, hitemP⟩
      · exact .inl ⟨item, hitem, hplain, hrun, hitemP⟩
      · have hitem : item ∈ inferred := mem_inferred.2 ⟨found, hfound, hmem⟩
        exact .inr ⟨item, hitem, hstand, (hcompiled item hitem).2.2, hitemP⟩
  rw [← hcalls, ← order_reports hnodup]
  refine or_iff_right ?_
  rintro ⟨failure, hfailure, -⟩
  obtain ⟨item, hitem, e, he, -⟩ := (hrefused failure).1 hfailure
  exact hdictionaries item hitem e he

/-- **What a build makes of its hints.** -/
theorem buildAnswers_iff : BuildAnswers execution candidateBundle ↔
    ∃ hints, BuildAnswerable execution candidateBundle hints := by
  have hregions : ∀ item ∈ ((autoMeshConsumers execution.plan
      candidateBundle.keys).toOption.getD []).map Prod.snd,
      ∃ region, nativeCommandRegion item.arguments = .ok region :=
    fun item hitem => (admitted_of_inferred hitem).1
  constructor
  · rintro ⟨graph, hints, hgraph, hhints, hanswers⟩
    obtain ⟨hints', hhints', hstrategy⟩ := Traversal.bind_eq_ok.1 hgraph
    obtain rfl := Except.ok.inj (hhints.symm.trans hhints')
    obtain ⟨strategy, hstrategy, -⟩ := Traversal.bind_eq_ok.1 hstrategy
    obtain ⟨graph', hgraph', hreports⟩ := build_reports_iff hhints hstrategy
    obtain rfl := Except.ok.inj (hgraph.symm.trans hgraph')
    refine ⟨hints, hhints, (authoredStrategy_returns hregions).1 ⟨strategy, hstrategy⟩, ?_⟩
    exact fun item hitem hunbindable => (hreports item.command).1 (hanswers item hitem hunbindable)
  · rintro ⟨hints, hanswerable⟩
    obtain ⟨strategy, hstrategy⟩ := (authoredStrategy_returns hregions).2 hanswerable.regions
    obtain ⟨graph, hgraph, hreports⟩ := build_reports_iff hanswerable.hinted hstrategy
    refine ⟨graph, hints, hgraph, hanswerable.hinted, fun item hitem hunbindable => ?_⟩
    exact (hreports item.command).2 (hanswerable.ordered item hitem hunbindable)

/-! ### The delta graph -/

/-- The paths of the case after the edits. -/
def editedPaths (view : Dict Text Text) (delta : CaseDelta) : List Text :=
  sortedPaths (normalizeEdits view delta).effective.keys

/-- The paths that the edits change or drop. -/
def editedInputs (view : Dict Text Text) (delta : CaseDelta) : List Text :=
  (normalizeEdits view delta).changed.map Prod.fst ++ activeDrops view delta

/-- `compile_case_delta_graph` returns a graph with a failure entry for every malformed or
unbindable hint. -/
def DeltaAnswers (m : MeshHost) (check : HeaderCheck) (registry : MeshRegistry)
    (w : CaseWorkspace) (plan : EngineeringPlan) (delta : CaseDelta) : Prop :=
  ∃ graph hints, compileCaseDeltaGraph m check registry w plan delta = .ok graph ∧
    hintedCommands delta = .ok hints ∧
    ∀ item ∈ hints, Unbindable plan item → ∃ failure ∈ graph.failures, failure.Reports item.command

/-- The parts of the compilation that no hint concerns return: the view of the case, the scopes of
the plan, the checks of the edited files and the recorded meshes. -/
structure Surveyed (m : MeshHost) (check : HeaderCheck) (registry : MeshRegistry)
    (w : CaseWorkspace) (plan : EngineeringPlan) (delta : CaseDelta) (view : Dict Text Text) :
    Prop where
  view_eq : effectiveView w plan = .ok view
  scopes : ∃ scopes, declaredScopes plan = .ok scopes
  bundle : ∃ failures, w.validateCandidateBundle m.host (normalizeEdits view delta).changed
    (activeDrops view delta) = .ok failures
  headers : ∀ file ∈ (normalizeEdits view delta).changed,
    ∃ failures, headerFailures check delta file = .ok failures
  meshes : ∀ e, affectedMeshScopeKeys m registry w plan (editedInputs view delta) [] ≠
    .error (.inr (.workspace e))

/-- The strategy can be bound: the hints taken up and the scopes, the recorded meshes, and the
scopes that the mesh commands work on. -/
structure StrategyBound (m : MeshHost) (registry : MeshRegistry) (w : CaseWorkspace)
    (plan : EngineeringPlan) (delta : CaseDelta) (paths inputs : List Text) : Prop where
  hints : Bindable plan (takenHints delta paths)
  meshes : ∃ keys, affectedMeshScopeKeys m registry w plan inputs [] = .ok keys
  commands : ∀ item, CalledFor plan delta paths inputs item →
    ∃ keys, invocationScopeKeys (executionScopes plan) item = .ok keys

/-- The dictionaries of the hints that are looked at can be determined, and, unless the strategy
cannot be bound, every hint that cannot be bound has the name of a command at which the order is
refused. -/
structure DeltaAnswerable (m : MeshHost) (check : HeaderCheck) (registry : MeshRegistry)
    (w : CaseWorkspace) (plan : EngineeringPlan) (delta : CaseDelta) (view : Dict Text Text)
    (hints : List NativeOpenFOAMCommand) : Prop where
  surveyed : Surveyed m check registry w plan delta view
  hinted : hintedCommands delta = .ok hints
  dictionaries : ∀ item ∈ hints, item.command ∉ controllerOwned →
    commandPermitted item.command delta.phase = true →
      ∃ required, requiredDictionary item.command item.arguments = .ok required
  ordered : StrategyBound m registry w plan delta (editedPaths view delta)
      (editedInputs view delta) →
    ∀ item ∈ hints, Unbindable plan item →
      OrderRefuses plan commandToken
        (CalledFor plan delta (editedPaths view delta) (editedInputs view delta)) item.command

variable {m : MeshHost} {check : HeaderCheck} {registry : MeshRegistry} {w : CaseWorkspace}
  {delta : CaseDelta} {paths inputs : List Text} {view : Dict Text Text}

/-- Reading the recorded meshes fails alike whatever the commands. -/
theorem affectedMeshScopeKeys_eq_raise {e : MeshError}
    {invocations : List NativeOpenFOAMCommand} :
    affectedMeshScopeKeys m registry w plan inputs invocations = .error (.inr e) ↔
      affectedMeshScopeKeys m registry w plan inputs [] = .error (.inr e) := by
  have hcommanded : ∀ (scopes : List ExecutionScope) (l : List NativeOpenFOAMCommand),
      l.mapM (fun invocation => (invocationScopeKeys scopes invocation).mapError
        (Sum.inl : _ → ScopeError ⊕ MeshError)) ≠ .error (.inr e) := by
    intro scopes l h
    obtain ⟨item, -, hitem⟩ := Traversal.mem_of_mapM_eq_error h
    cases hkeys : invocationScopeKeys scopes item with
    | error => rw [hkeys] at hitem; cases hitem
    | ok => rw [hkeys] at hitem; cases hitem
  unfold affectedMeshScopeKeys
  simp only [Traversal.bind_eq_error, hcommanded, false_or]
  refine or_congr_right (exists_congr fun _ => and_congr_right fun _ => or_congr_right
    (exists_congr fun _ => and_congr_right fun _ => or_congr_right
      (exists_congr fun _ => and_congr_right fun _ => ?_)))
  exact iff_of_false (by rintro ⟨_, -, ⟨⟩⟩) (by rintro ⟨_, -, ⟨⟩⟩)

/-- The affected scopes can be bound when the recorded meshes can be read and every mesh command
works on declared scopes. -/
theorem affectedMeshScopeKeys_returns {invocations : List NativeOpenFOAMCommand} :
    (∃ keys, affectedMeshScopeKeys m registry w plan inputs invocations = .ok keys) ↔
      (∃ keys, affectedMeshScopeKeys m registry w plan inputs [] = .ok keys) ∧
        ∀ item ∈ invocations, ∃ keys,
          invocationScopeKeys (executionScopes plan) item = .ok keys := by
  constructor
  · rintro ⟨keys, h⟩
    refine ⟨?_, (bound_of_affectedMeshScopeKeys h).2⟩
    unfold affectedMeshScopeKeys at h
    obtain ⟨operations, hload, h⟩ := Traversal.bind_eq_ok.1 h
    obtain ⟨scopes, hscopes, h⟩ := Traversal.bind_eq_ok.1 h
    obtain ⟨observed, hobserved, -⟩ := Traversal.bind_eq_ok.1 h
    exact ⟨_, Traversal.bind_eq_ok.2 ⟨operations, hload, Traversal.bind_eq_ok.2 ⟨scopes, hscopes,
      Traversal.bind_eq_ok.2 ⟨observed, hobserved, rfl⟩⟩⟩⟩
  · rintro ⟨⟨keys, h⟩, hbound⟩
    unfold affectedMeshScopeKeys at h
    obtain ⟨operations, hload, h⟩ := Traversal.bind_eq_ok.1 h
    obtain ⟨scopes, hscopes, h⟩ := Traversal.bind_eq_ok.1 h
    obtain ⟨observed, hobserved, -⟩ := Traversal.bind_eq_ok.1 h
    obtain rfl := declaredScopes_eq_ok (Traversal.mapError_eq_ok.1 hscopes)
    obtain ⟨commanded, hcommanded⟩ : ∃ commanded, invocations.mapM (fun invocation =>
        (invocationScopeKeys (executionScopes plan) invocation).mapError
          (Sum.inl : _ → ScopeError ⊕ MeshError)) = .ok commanded :=
      Traversal.mapM_progress fun item hitem =>
        (hbound item hitem).imp fun _ hkeys => Traversal.mapError_eq_ok.2 hkeys
    exact ⟨_, Traversal.bind_eq_ok.2 ⟨operations, hload, Traversal.bind_eq_ok.2 ⟨_, hscopes,
      Traversal.bind_eq_ok.2 ⟨observed, hobserved, Traversal.bind_eq_ok.2 ⟨commanded, hcommanded,
        rfl⟩⟩⟩⟩⟩

/-- The hints can be admitted when the dictionaries of those that are looked at can be
determined. -/
theorem admitHint_returns {phase : NativePhase} :
    (∃ s, hints.foldlM (admitHint phase paths) ([], []) = .ok s) ↔
      ∀ item ∈ hints, item.command ∉ controllerOwned → commandPermitted item.command phase = true →
        ∃ required, requiredDictionary item.command item.arguments = .ok required := by
  constructor
  · rintro ⟨s, h⟩
    refine Traversal.foldlM_induct (P := fun done _ => ∀ item ∈ done,
      item.command ∉ controllerOwned → commandPermitted item.command phase = true →
        ∃ required, requiredDictionary item.command item.arguments = .ok required) h (by simp) ?_
    intro done hint _ t t' ht hstep item hitem howned hpermitted
    rcases List.mem_append.1 hitem with hold | hlast
    · exact ht item hold howned hpermitted
    · obtain rfl := List.mem_singleton.1 hlast
      unfold admitHint at hstep
      rw [if_neg howned, hpermitted] at hstep
      cases hrequired : requiredDictionary item.command item.arguments with
      | error e => rw [hrequired] at hstep; cases hstep
      | ok required => exact ⟨required, rfl⟩
  · intro hall
    obtain ⟨s, hs, -⟩ := Traversal.foldlM_progress (P := fun _ _ => True) (l := hints)
      (f := admitHint phase paths) (s := ([], [])) trivial fun done item rest heq t _ => by
        have hitem : item ∈ hints := heq ▸ List.mem_append_right _ List.mem_cons_self
        suffices hstep : ∃ t', admitHint phase paths t item = .ok t' from
          hstep.imp fun _ ht' => ⟨ht', trivial⟩
        unfold admitHint
        split_ifs with howned hpermitted
        · exact ⟨_, rfl⟩
        · exact ⟨_, rfl⟩
        · obtain ⟨required, hrequired⟩ := hall item hitem howned (by simpa using hpermitted)
          rw [hrequired]
          cases required with
          | none => exact ⟨_, rfl⟩
          | some path =>
            dsimp only
            split_ifs <;> exact ⟨_, rfl⟩
    exact ⟨s, hs⟩

/-- With valid scopes the mesh checks can be compiled. -/
theorem withMeshChecks_returns (strategy : List NativeOpenFOAMCommand) (affected : List Text)
    (h : ∃ scopes, declaredScopes plan = .ok scopes) :
    ∃ checked, withMeshChecks plan strategy affected = .ok checked := by
  obtain ⟨scopes, hscopes⟩ := h
  obtain ⟨checks, hchecks⟩ : ∃ checks, finalMeshValidationCommands plan affected = .ok checks := by
    obtain ⟨found, hfound⟩ := Traversal.mapM_progress
      (l := scopes.filter fun scope => scopeKey scope ∈ affected)
      (f := fun scope => (inExecutionOrder (·.controllerFinalizer)).mapM fun contract =>
        (contractArguments contract scope).map fun arguments =>
          controllerCommand contract arguments .meshValidation)
      fun scope _ => ⟨_, finalizers_of_scope scope⟩
    exact ⟨found.flatten, Traversal.bind_eq_ok.2 ⟨scopes, hscopes,
      Traversal.bind_eq_ok.2 ⟨found, hfound, rfl⟩⟩⟩
  unfold withMeshChecks
  split_ifs
  · exact ⟨_, rfl⟩
  · exact ⟨_, by rw [hchecks]; rfl⟩

/-- The affected scopes are bound, or a failure says that they cannot be. -/
theorem boundScopes_reports {r : Except (ScopeError ⊕ MeshError) (List Text)}
    (h : ∀ e, r ≠ .error (.inr (.workspace e))) :
    ∃ affected unbound, boundScopes r = .ok (affected, unbound) ∧ ∀ command,
      (∃ failure ∈ unbound, failure.Reports command) ↔ ¬ ∃ keys, r = .ok keys := by
  have hfails : ∀ e command,
      (∃ failure ∈ [DeltaFailure.unboundScopes e], failure.Reports command) := fun e command =>
    ⟨_, List.mem_singleton_self _, trivial⟩
  rcases r with (e | (e | e)) | keys
  · exact ⟨[], _, rfl, fun command => iff_of_true (hfails _ command) (by simp)⟩
  · exact ⟨[], _, rfl, fun command => iff_of_true (hfails _ command) (by simp)⟩
  · exact absurd rfl (h e)
  · exact ⟨keys, [], rfl, fun command => iff_of_false (by simp) (by simp)⟩

theorem plain_of_strategy (plan : EngineeringPlan) (inputs : List Text)
    {s : List NativeOpenFOAMCommand × List DeltaWarning} {phase : NativePhase}
    (h : hints.foldlM (admitHint phase paths) ([], []) = .ok s) :
    ∀ item ∈ dedupeNative [] (s.1 ++
        (autoConsumersForDelta plan paths inputs s.1).toOption.getD []),
      isFinalizer item = false := by
  intro item hitem
  rcases List.mem_append.1 (mem_of_mem_dedupeNative hitem) with hmem | hmem
  · exact (admissible_of_admitHint h item hmem).2
  · cases hinferred : autoConsumersForDelta plan paths inputs s.1 with
    | error e =>
      rw [hinferred] at hmem
      cases hmem
    | ok found =>
      rw [hinferred] at hmem
      have hphase : NativePhase.repair ∈ editPhases := by decide
      exact (admissible_of_autoConsumersForDelta hphase hinferred item hmem).2

theorem nodup_dedupeNative (l : List NativeOpenFOAMCommand) :
    ((dedupeNative [] l).map commandToken).Nodup := by
  rw [dedupeNative_eq]
  exact (Repetitions.nodup_firstByKey commandToken [] l).1

theorem dedupeNative_idem (l : List NativeOpenFOAMCommand) :
    dedupeNative [] (dedupeNative [] l) = dedupeNative [] l := by
  rw [dedupeNative_eq [] (dedupeNative [] l)]
  exact Repetitions.firstByKey_eq_self commandToken (nodup_dedupeNative l)
    fun _ _ => List.not_mem_nil

/-- The failures of the search for consumers. -/
def uncompiledConsumers (inferred : Except ScopeError (List NativeOpenFOAMCommand)) :
    List DeltaFailure :=
  match inferred with
  | .error e => [.consumers e]
  | .ok _ => []

/-- What depends on command lines alone holds of a command of the strategy when it holds of a
command the delta calls for. -/
theorem exists_mem_strategy {found : List NativeOpenFOAMCommand} {P : NativeOpenFOAMCommand → Prop}
    (h : autoConsumersForDelta plan paths inputs (takenHints delta paths) = .ok found)
    (hP : ∀ a b, commandToken a = commandToken b → (P a ↔ P b)) :
    (∃ item ∈ dedupeNative [] (takenHints delta paths ++ found), P item) ↔
      ∃ item, CalledFor plan delta paths inputs item ∧ P item := by
  rw [dedupeNative_eq, Repetitions.exists_mem_firstByKey commandToken hP]
  simp only [List.mem_append, calledFor_iff h]

/-- Which invocations the native part of a delta reports. -/
theorem compileNative_reports (hhints : hintedCommands delta = .ok hints)
    (hscopes : ∃ scopes, declaredScopes plan = .ok scopes)
    (hdictionaries : ∀ item ∈ hints, item.command ∉ controllerOwned →
      commandPermitted item.command delta.phase = true →
        ∃ required, requiredDictionary item.command item.arguments = .ok required)
    (hmeshes : ∀ e, affectedMeshScopeKeys m registry w plan inputs [] ≠
      .error (.inr (.workspace e))) :
    ∃ native, compileNative m registry w plan delta paths inputs = .ok native ∧ ∀ command,
      (∃ failure ∈ native.failures, failure.Reports command) ↔
        ¬ StrategyBound m registry w plan delta paths inputs ∨
          OrderRefuses plan commandToken (CalledFor plan delta paths inputs) command := by
  obtain ⟨⟨hinted, warnings⟩, hadmit⟩ := admitHint_returns.2 fun item hitem =>
    hdictionaries item (mem_of_mem_dedupeNative hitem)
  obtain rfl : hinted = takenHints delta paths := by
    rw [takenHints, hhints]
    exact admitted_eq hadmit
  have hplain := plain_of_strategy plan inputs hadmit
  dsimp only at hplain
  obtain ⟨affected, unbound, hbound, hunbound⟩ := boundScopes_reports
    (r := affectedMeshScopeKeys m registry w plan inputs (dedupeNative [] (takenHints delta paths ++
      (autoConsumersForDelta plan paths inputs (takenHints delta paths)).toOption.getD [])))
    fun e h => hmeshes e (affectedMeshScopeKeys_eq_raise.1 h)
  obtain ⟨checked, hchecked⟩ := withMeshChecks_returns (dedupeNative [] (takenHints delta paths ++
    (autoConsumersForDelta plan paths inputs (takenHints delta paths)).toOption.getD []))
      affected hscopes
  have hkept := (withMeshChecks_eq_ok hplain hchecked).1
  have hreturns : ∃ native, compileNative m registry w plan delta paths inputs = .ok native ∧
      native.failures =
        uncompiledConsumers (autoConsumersForDelta plan paths inputs (takenHints delta paths)) ++
          unbound ++ (stableDependencyOrder plan
            (dedupeNative [] (checked.filter (!isFinalizer ·)))).2 :=
    ⟨_, Traversal.bind_eq_ok.2 ⟨hints, raiseScope_eq_ok.2 hhints, Traversal.bind_eq_ok.2
      ⟨_, raiseScope_eq_ok.2 hadmit, Traversal.bind_eq_ok.2 ⟨_, hbound, Traversal.bind_eq_ok.2
        ⟨checked, raiseScope_eq_ok.2 hchecked, rfl⟩⟩⟩⟩, rfl⟩
  obtain ⟨native, hnative, hfailures⟩ := hreturns
  refine ⟨native, hnative, fun command => ?_⟩
  rw [hfailures, hkept, dedupeNative_idem]
  cases hinferred : autoConsumersForDelta plan paths inputs (takenHints delta paths) with
  | error e =>
    refine iff_of_true ⟨.consumers e, by simp [uncompiledConsumers], trivial⟩ (.inl fun h => ?_)
    obtain ⟨_, _, _, s, hs, -⟩ := autoConsumersForDelta_searches paths inputs h.hints
    cases hinferred.symm.trans hs
  | ok found =>
    rw [hinferred, Except.toOption, Option.getD_some] at hunbound
    have hcommands : (∀ item ∈ dedupeNative [] (takenHints delta paths ++ found),
        ∃ keys, invocationScopeKeys (executionScopes plan) item = .ok keys) ↔
        ∀ item, CalledFor plan delta paths inputs item →
          ∃ keys, invocationScopeKeys (executionScopes plan) item = .ok keys := by
      have hnone := not_congr (exists_mem_strategy hinferred
        (P := fun item => ¬ ∃ keys, invocationScopeKeys (executionScopes plan) item = .ok keys)
        fun a b hab => by
          obtain ⟨hcommand, harguments⟩ := Prod.mk.inj hab
          rw [invocationScopeKeys, invocationScopeKeys, hcommand, harguments])
      simpa only [not_exists, not_and, not_forall, not_not] using hnone
    have hstrategy : StrategyBound m registry w plan delta paths inputs ↔
        ∃ keys, affectedMeshScopeKeys m registry w plan inputs
          (dedupeNative [] (takenHints delta paths ++ found)) = .ok keys := by
      rw [affectedMeshScopeKeys_returns, hcommands]
      exact ⟨fun h => ⟨h.meshes, h.commands⟩,
        fun h => ⟨bindable_of_autoConsumersForDelta hinferred, h.1, h.2⟩⟩
    have horder : OrderRefuses plan commandToken
        (· ∈ dedupeNative [] (takenHints delta paths ++ found)) command ↔
        OrderRefuses plan commandToken (CalledFor plan delta paths inputs) command :=
      OrderRefuses.congr (fun _ _ hab => hab) fun P hP => exists_mem_strategy hinferred hP
    rw [hstrategy, ← hunbound command, ← horder, ← order_reports (nodup_dedupeNative _)]
    simp only [uncompiledConsumers, Except.toOption, Option.getD_some, List.nil_append,
      List.mem_append, or_and_right, exists_or]

/-- Where the native part returns, the hints that are looked at have dictionaries, and the
recorded meshes were read. -/
theorem compileNative_eq_ok {native : NativePart}
    (h : compileNative m registry w plan delta paths inputs = .ok native) :
    ∃ hints, hintedCommands delta = .ok hints ∧
      (∀ item ∈ hints, item.command ∉ controllerOwned →
        commandPermitted item.command delta.phase = true →
          ∃ required, requiredDictionary item.command item.arguments = .ok required) ∧
      ∀ e, affectedMeshScopeKeys m registry w plan inputs [] ≠ .error (.inr (.workspace e)) := by
  unfold compileNative at h
  simp only [Traversal.bind_eq_ok, raiseScope_eq_ok] at h
  obtain ⟨hints, hhints, ⟨hinted, warnings⟩, hadmit, bound, hbound, -⟩ := h
  refine ⟨hints, hhints, fun item hitem howned hpermitted => ?_, fun e he => ?_⟩
  · obtain ⟨kept, hkept, htoken⟩ := (Repetitions.exists_mem_firstByKey commandToken
      (P := fun other => commandToken other = commandToken item)
      fun a b hab => by rw [hab]).2 ⟨item, hitem, rfl⟩
    rw [← dedupeNative_eq] at hkept
    obtain ⟨hcommand, harguments⟩ := Prod.mk.inj htoken
    rw [← hcommand, ← harguments]
    exact admitHint_returns.1 ⟨_, hadmit⟩ kept hkept (hcommand ▸ howned) (hcommand ▸ hpermitted)
  · rw [affectedMeshScopeKeys_eq_raise.2 he] at hbound
    cases hbound

/-- No failure of the edits reports an invocation. -/
theorem not_reports_of_normalizeEdits {command : Text} :
    ∀ failure ∈ (normalizeEdits view delta).failures, ¬ failure.Reports command := by
  have hfail : ∀ {s : Edited} {failure : DeltaFailure},
      (∀ f ∈ s.failures, ¬ f.Reports command) → ¬ failure.Reports command →
      ∀ f ∈ (s.fail failure).failures, ¬ f.Reports command := by
    intro s failure hs hfailure f hf
    rcases List.mem_append.1 hf with hold | hlast
    · exact hs f hold
    · exact List.mem_singleton.1 hlast ▸ hfailure
  have hreplace : ∀ (s : Edited) (file : Text × Text), (∀ f ∈ s.failures, ¬ f.Reports command) →
      ∀ f ∈ (s.replace file).failures, ¬ f.Reports command := by
    intro s file hs
    unfold Edited.replace
    split_ifs
    · exact hfail hs id
    · exact hs
  have hpatch : ∀ (replaced drops : List Text) (s : Edited) (p : CaseFilePatch),
      (∀ f ∈ s.failures, ¬ f.Reports command) →
      ∀ f ∈ (s.patch replaced drops p).failures, ¬ f.Reports command := by
    intro replaced drops s p hs
    unfold Edited.patch
    split
    · exact hfail hs id
    · split
      · exact hfail hs id
      · split
        · exact hfail hs id
        · split_ifs
          · exact hfail hs id
          · exact hfail hs id
          · exact hfail hs id
          · exact hs
  have hdrop : ∀ (s : Edited) (path : Text), (∀ f ∈ s.failures, ¬ f.Reports command) →
      ∀ f ∈ (s.drop path).failures, ¬ f.Reports command := by
    intro s path hs
    unfold Edited.drop
    dsimp only
    split_ifs
    · exact hfail hs id
    · exact hs
  unfold normalizeEdits
  refine List.foldlRecOn _ _ ?_ fun s hs path _ => hdrop s path hs
  refine List.foldlRecOn _ _ ?_ fun s hs p _ => hpatch _ _ s p hs
  refine List.foldlRecOn _ _ ?_ fun s hs file _ => hreplace s file hs
  exact fun f hf => (List.not_mem_nil hf).elim

/-- Which invocations a delta reports. -/
theorem delta_reports_iff (hsurveyed : Surveyed m check registry w plan delta view)
    (hhints : hintedCommands delta = .ok hints)
    (hdictionaries : ∀ item ∈ hints, item.command ∉ controllerOwned →
      commandPermitted item.command delta.phase = true →
        ∃ required, requiredDictionary item.command item.arguments = .ok required) :
    ∃ graph, compileCaseDeltaGraph m check registry w plan delta = .ok graph ∧ ∀ command,
      (∃ failure ∈ graph.failures, failure.Reports command) ↔
        ¬ StrategyBound m registry w plan delta (editedPaths view delta)
            (editedInputs view delta) ∨
          OrderRefuses plan commandToken
            (CalledFor plan delta (editedPaths view delta) (editedInputs view delta)) command := by
  obtain ⟨native, hnative, hreports⟩ : ∃ native, compileNative m registry w plan delta
      (editedPaths view delta) (editedInputs view delta) = .ok native ∧ _ :=
    compileNative_reports hhints hsurveyed.scopes hdictionaries hsurveyed.meshes
  obtain ⟨bundle, hbundle⟩ := hsurveyed.bundle
  obtain ⟨headers, hheaders⟩ := Traversal.mapM_progress hsurveyed.headers
  obtain ⟨scopes, hscopes⟩ := hsurveyed.scopes
  refine ⟨_, Traversal.bind_eq_ok.2 ⟨view, raiseCheck_eq_ok.2 hsurveyed.view_eq,
    Traversal.bind_eq_ok.2 ⟨bundle, raiseCheck_eq_ok.2 hbundle, Traversal.bind_eq_ok.2
      ⟨headers, hheaders, Traversal.bind_eq_ok.2 ⟨native, hnative, Traversal.bind_eq_ok.2
        ⟨scopes, raiseScope_eq_ok.2 hscopes, rfl⟩⟩⟩⟩⟩, fun command => ?_⟩
  rw [← hreports command]
  dsimp only
  simp only [List.mem_eraseDups, List.mem_append]
  constructor
  · rintro ⟨failure, (((h | h) | h) | h) | h, hfailure⟩
    · exact absurd hfailure (not_reports_of_normalizeEdits failure h)
    · split_ifs at h
      · cases h
      · obtain rfl := List.mem_singleton.1 h
        exact hfailure.elim
    · obtain ⟨e, -, rfl⟩ := List.mem_map.1 h
      exact hfailure.elim
    · obtain ⟨list, hlist, hmem⟩ := List.mem_flatten.1 h
      obtain ⟨file, -, hfile⟩ := Traversal.ok_of_mem_mapM hheaders hlist
      unfold headerFailures at hfile
      split at hfile
      · obtain rfl := Except.ok.inj hfile
        cases hmem
      · dsimp only at hfile
        generalize check file.1 file.2 _ = answer at hfile
        cases answer with
        | none => cases hfile
        | some failures =>
          obtain rfl := Except.ok.inj hfile
          obtain ⟨text, -, rfl⟩ := List.mem_map.1 hmem
          exact hfailure.elim
    · exact ⟨failure, h, hfailure⟩
  · rintro ⟨failure, h, hfailure⟩
    exact ⟨failure, .inr h, hfailure⟩

/-- **What a delta makes of its hints.** -/
theorem deltaAnswers_iff : DeltaAnswers m check registry w plan delta ↔
    ∃ view hints, DeltaAnswerable m check registry w plan delta view hints := by
  constructor
  · rintro ⟨graph, hints, hgraph, hhints, hanswers⟩
    have h := hgraph
    unfold compileCaseDeltaGraph at h
    simp only [Traversal.bind_eq_ok, raiseCheck_eq_ok, raiseScope_eq_ok] at h
    obtain ⟨view, hview, bundle, hbundle, headers, hheaders, native, hnative, scopes, hscopes,
      -⟩ := h
    obtain ⟨hints', hhints', hdictionaries, hmeshes⟩ := compileNative_eq_ok hnative
    obtain rfl := Except.ok.inj (hhints.symm.trans hhints')
    have hsurveyed : Surveyed m check registry w plan delta view :=
      ⟨hview, ⟨scopes, hscopes⟩, ⟨bundle, hbundle⟩, fun file hfile =>
        (Traversal.exists_mem_of_mapM hheaders hfile).imp fun _ h => h.2, hmeshes⟩
    obtain ⟨graph', hgraph', hreports⟩ := delta_reports_iff hsurveyed hhints hdictionaries
    obtain rfl := Except.ok.inj (hgraph.symm.trans hgraph')
    refine ⟨view, hints, hsurveyed, hhints, hdictionaries, fun hbound item hitem hunbindable => ?_⟩
    exact ((hreports item.command).1 (hanswers item hitem hunbindable)).resolve_left
      (not_not_intro hbound)
  · rintro ⟨view, hints, hanswerable⟩
    obtain ⟨graph, hgraph, hreports⟩ := delta_reports_iff hanswerable.surveyed hanswerable.hinted
      hanswerable.dictionaries
    refine ⟨graph, hints, hgraph, hanswerable.hinted, fun item hitem hunbindable => ?_⟩
    refine (hreports item.command).2 ?_
    by_cases hbound : StrategyBound m registry w plan delta (editedPaths view delta)
      (editedInputs view delta)
    · exact .inr (hanswerable.ordered hbound item hitem hunbindable)
    · exact .inl hbound

/-- **Which hints the compilers answer.** For every list of hints, whatever their commands and
arguments: a build returns a graph that reports each malformed or unbindable hint exactly when the
regions of all hints but probes and finalizers can be read and each hint that cannot be bound has
the name of a command at which the order is refused. A delta does exactly when the parts no hint
concerns return, the dictionaries of the hints looked at can be determined and, where the strategy
can be bound, each hint that cannot be has the name of such a command. -/
theorem compilers_answer_iff (execution : ExecuteCasePlanAction)
    (candidateBundle : Dict Text Text) (m : MeshHost) (check : HeaderCheck)
    (registry : MeshRegistry) (w : CaseWorkspace) (plan : EngineeringPlan) (delta : CaseDelta) :
    (BuildAnswers execution candidateBundle ↔
      ∃ hints, BuildAnswerable execution candidateBundle hints) ∧
    (DeltaAnswers m check registry w plan delta ↔
      ∃ view hints, DeltaAnswerable m check registry w plan delta view hints) :=
  ⟨buildAnswers_iff, deltaAnswers_iff⟩

/-! ### Hints that are not answered -/

/-- An action with one region, whose only hint is a mesh command with some arguments. -/
def hintedAction (arguments paths : List String) : ExecuteCasePlanAction where
  action :=
    { (layoutAction ["fluid"] paths).action with
      nativePipeline := [{
        command := "blockMesh".toList
        arguments := arguments.map String.toList
        role := .mesh }] }
  plan := layoutPlan ["fluid"]

/-- A delta without edits, with the same hint. -/
def hintedDelta (arguments : List String) : CaseDelta where
  nativeHints := (hintedAction arguments []).action.nativePipeline

/-- An action whose hint has a `-region` without a name. -/
def namelessAction : ExecuteCasePlanAction := hintedAction ["-region"] ["system/controlDict"]

/-- An action whose hint is addressed to a region that no scope declares. -/
def undeclaredAction : ExecuteCasePlanAction :=
  hintedAction ["-region", "solid"]
    ["system/controlDict", "constant/fluid/polyMesh/points", "system/solid/blockMeshDict"]

/-- **Hints that are not answered.** A `-region` without a name leaves either compiler as an
exception. A lone command in a region that no scope declares is put into the pipeline of a valid
build. -/
theorem nameless_region_leaves :
    (namelessAction.action.validateCaseAuthoring true ∧
      compileCaseBuildGraph namelessAction (bundleOf namelessAction) = .error .missingRegion ∧
      ¬ BuildAnswers namelessAction (bundleOf namelessAction)) ∧
    (compileCaseDeltaGraph plainHost (fun _ _ _ => some []) .absent smallCase (openPlan ["fluid"])
        (hintedDelta ["-region"]) = .error (.scope .missingRegion) ∧
      ¬ DeltaAnswers plainHost (fun _ _ _ => some []) .absent smallCase (openPlan ["fluid"])
        (hintedDelta ["-region"])) ∧
    undeclaredAction.action.validateCaseAuthoring true ∧
      ∃ graph, compileCaseBuildGraph undeclaredAction (bundleOf undeclaredAction) = .ok graph ∧
        graph.Valid ∧ ∃ item ∈ graph.nativePipeline, Unbindable undeclaredAction.plan item := by
  have hbuild : compileCaseBuildGraph namelessAction (bundleOf namelessAction) =
      .error .missingRegion := by
    decide +kernel
  have hdelta : compileCaseDeltaGraph plainHost (fun _ _ _ => some []) .absent smallCase
      (openPlan ["fluid"]) (hintedDelta ["-region"]) = .error (.scope .missingRegion) := by
    decide +kernel
  refine ⟨⟨by decide +kernel, hbuild, ?_⟩, ⟨hdelta, ?_⟩, by decide +kernel, ?_⟩
  · rintro ⟨graph, hints, hgraph, -⟩
    cases hbuild.symm.trans hgraph
  · rintro ⟨graph, hints, hgraph, -⟩
    cases hdelta.symm.trans hgraph
  · obtain ⟨graph, hgraph, hvalid, hruns⟩ := exists_of_builtGraph undeclaredAction
      (fun graph => graph.nativePipeline.any fun item =>
        item.arguments == ["-region".toList, "solid".toList]) (by decide +kernel)
    obtain ⟨item, hitem, harguments⟩ := List.any_eq_true.1 hruns
    refine ⟨graph, hgraph, hvalid, item, hitem, .unbound (some "solid".toList), ?_⟩
    rw [eq_of_beq harguments]
    decide +kernel

end Engineering
end OpenFoamAgent
