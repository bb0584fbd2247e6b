/-
# Native pipelines

Which native command produces what another consumes, and the two parts of every
compiled pipeline: commands in the stable order of `_stable_dependency_order`,
and behind them the mesh checks the controller adds.

`checkMesh` is the only finalizer of the registry. It consumes and never
produces, so it stands last whatever comes before.
-/
import OpenFoamAgent.Engineering.CaseDeltaGraph

namespace OpenFoamAgent
namespace Engineering

open Python Schemas Workspace

variable {plan : EngineeringPlan} {items ordered : List NativeOpenFOAMCommand}

/-! ### Producers and consumers -/

/-- The contract of the one command has a label among its outputs that the contract of the
other has among its inputs, for the same scope where the label is one of a scope. -/
def Produces (plan : EngineeringPlan) (producer consumer : NativeOpenFOAMCommand) : Prop :=
  ∃ p c, orderingLabels plan producer = .ok p ∧ orderingLabels plan consumer = .ok c ∧
    ∃ label ∈ p.2, label ∈ c.1

/-- Every producer stands before its consumers. -/
def Ordered (plan : EngineeringPlan) (pipeline : List NativeOpenFOAMCommand) : Prop :=
  pipeline.Pairwise fun earlier later => ¬ Produces plan later earlier

/-- Where all labels are bound, a producer precedes its consumer in the graph that is sorted. -/
theorem precedes_of_produces {p v : ℕ} {a b : NativeOpenFOAMCommand} (ha : items[p]? = some a)
    (hb : items[v]? = some b) (hne : p ≠ v) (h : Produces plan a b) :
    precedes (items.map fun item => (orderingLabels plan item).toOption.getD ([], [])) p v := by
  obtain ⟨producer, consumer, hproducer, hconsumer, label, hout, hin⟩ := h
  have hget : ∀ {i : ℕ} {item : NativeOpenFOAMCommand}
      {labels : List Text × List Text}, items[i]? = some item →
      orderingLabels plan item = .ok labels →
      (items.map fun item => (orderingLabels plan item).toOption.getD ([], [])).getD i ([], []) =
        labels := by
    intro i item labels hitem hlabels
    rw [List.getD_eq_getElem?_getD, List.getElem?_map, hitem]
    simp [hlabels, Except.toOption]
  unfold precedes
  rw [hget ha hproducer, hget hb hconsumer]
  simp only [Bool.and_eq_true, bne_iff_ne, List.any_eq_true, decide_eq_true_eq]
  exact ⟨hne, label, hout, hin⟩

/-- **The stable order** is a permutation in which every producer stands before its consumers. -/
theorem ordered_of_stableDependencyOrder (h : stableDependencyOrder plan items = (ordered, [])) :
    ordered.Perm items ∧ Ordered plan ordered := by
  unfold stableDependencyOrder at h
  split_ifs at h with hshort
  · obtain ⟨rfl, -⟩ := Prod.mk.inj h
    refine ⟨List.Perm.refl _, ?_⟩
    rcases items with _ | ⟨a, _ | ⟨b, rest⟩⟩
    · exact List.Pairwise.nil
    · exact List.pairwise_singleton _ a
    · simp only [List.length_cons] at hshort
      omega
  · dsimp only at h
    split at h
    · rename_i hfailures
      exact absurd (Prod.mk.inj h).2 hfailures
    · split at h
      · rename_i order horder
        obtain ⟨rfl, -⟩ := Prod.mk.inj h
        obtain ⟨hperm, hrespects⟩ := Topological.order_respects horder
        exact Topological.pairwise_of_respects hperm hrespects fun _ _ _ _ => precedes_of_produces
      · cases (Prod.mk.inj h).2

/-! ### Finalizers -/

/-- `checkMesh` of a scope, as the controller adds it. -/
def meshCheck (scope : ExecutionScope) : NativeOpenFOAMCommand where
  command := "checkMesh".toList
  arguments := scope.name.elim [] fun name => ["-region".toList, name]
  role := .meshValidation

theorem nativeToolContract_eq (command : Text) :
    (nativeToolContract command ∈ registeredContracts ∧
      (nativeToolContract command).command = command) ∨
    nativeToolContract command = { command, effect := .unknown, permittedPhases := [] } := by
  unfold nativeToolContract
  cases hfind : registeredContracts.find? fun contract => contract.command = command with
  | none => exact .inr rfl
  | some contract =>
    exact .inl ⟨List.mem_of_find?_eq_some hfind, by simpa using List.find?_some hfind⟩

/-- The only finalizer is `checkMesh`. -/
theorem isFinalizer_iff {item : NativeOpenFOAMCommand} :
    isFinalizer item = true ↔ item.command = "checkMesh".toList := by
  have hregistered : ∀ contract ∈ registeredContracts, contract.controllerFinalizer = true →
      contract.command = "checkMesh".toList := by
    decide +kernel
  unfold isFinalizer
  constructor
  · intro h
    rcases nativeToolContract_eq item.command with ⟨hmem, hcommand⟩ | hunknown
    · rw [← hcommand]
      exact hregistered _ hmem h
    · rw [hunknown] at h
      cases h
  · intro h
    rw [h]
    decide +kernel

/-- A finalizer produces nothing. -/
theorem not_produces_of_isFinalizer {item consumer : NativeOpenFOAMCommand}
    (h : isFinalizer item = true) : ¬ Produces plan item consumer := by
  rintro ⟨p, -, hp, -, label, hlabel, -⟩
  unfold orderingLabels at hp
  obtain ⟨inputs, -, hp⟩ := Traversal.bind_eq_ok.1 hp
  obtain ⟨outputs, houtputs, hp⟩ := Traversal.bind_eq_ok.1 hp
  obtain rfl := Except.ok.inj hp
  have hnone : (nativeToolContract "checkMesh".toList).orderingOutputs = [] := by
    decide +kernel
  rw [isFinalizer_iff.1 h, hnone] at houtputs
  obtain rfl := Except.ok.inj houtputs
  cases hlabel

/-- The finalizers of a scope are its mesh check. -/
theorem finalizers_of_scope (scope : ExecutionScope) :
    ((inExecutionOrder (·.controllerFinalizer)).mapM fun contract =>
      (contractArguments contract scope).map fun arguments =>
        controllerCommand contract arguments .meshValidation) = .ok [meshCheck scope] := by
  have hfinalizers : inExecutionOrder (·.controllerFinalizer) =
      [nativeToolContract "checkMesh".toList] := by
    decide +kernel
  rw [hfinalizers]
  unfold meshCheck contractArguments scopeArgumentsFor
  cases scope.name with
  | none => rfl
  | some name => rfl

/-- The mesh checks the controller adds are those of the scopes with the keys asked for. -/
theorem finalMeshValidationCommands_eq_ok {only : List Text} {checks : List NativeOpenFOAMCommand}
    (h : finalMeshValidationCommands plan only = .ok checks) :
    checks = ((executionScopes plan).filter fun scope => scopeKey scope ∈ only).map meshCheck := by
  unfold finalMeshValidationCommands at h
  obtain ⟨scopes, hscopes, h⟩ := Traversal.bind_eq_ok.1 h
  obtain ⟨found, hfound, h⟩ := Traversal.bind_eq_ok.1 h
  obtain rfl := Except.ok.inj h
  obtain rfl := declaredScopes_eq_ok hscopes
  have hfound' := Traversal.map_of_mapM hfound fun scope _ found h =>
    (Except.ok.inj ((finalizers_of_scope scope).symm.trans h)).symm
  rw [hfound', ← List.flatMap_def, List.map_eq_flatMap]

theorem isFinalizer_meshCheck (scope : ExecutionScope) : isFinalizer (meshCheck scope) = true :=
  isFinalizer_iff.2 rfl

/-- The keys of scopes are distinct as their regions are. -/
theorem nodup_scopeKey {scopes : List ExecutionScope} :
    (scopes.map scopeKey).Nodup ↔ (scopes.map (·.name)).Nodup := by
  have hkey : scopes.map scopeKey = (scopes.map (·.name)).map fun name => scopeKey { name } := by
    rw [List.map_map]
    rfl
  rw [hkey, List.nodup_map_iff]
  rintro (_ | left) (_ | right) heq
  · rfl
  · exact absurd (congrArg (·[1]?) heq) (by simp [scopeKey])
  · exact absurd (congrArg (·[1]?) heq) (by simp [scopeKey])
  · exact congrArg some (List.append_cancel_left heq)

/-- Mesh checks are distinct as the regions of their scopes are. -/
theorem nodup_meshCheck {scopes : List ExecutionScope} {β : Type}
    (token : NativeOpenFOAMCommand → β)
    (htoken : ∀ a b, token a = token b → a.arguments = b.arguments) :
    ((scopes.map meshCheck).map token).Nodup ↔ (scopes.map (·.name)).Nodup := by
  have hname : (scopes.map meshCheck).map token =
      (scopes.map (·.name)).map fun name => token (meshCheck { name }) := by
    rw [List.map_map, List.map_map]
    rfl
  rw [hname, List.nodup_map_iff]
  intro left right heq
  have harguments := htoken _ _ heq
  rcases left with _ | left
  · rcases right with _ | right
    · rfl
    · cases harguments
  · rcases right with _ | right
    · cases harguments
    · exact congrArg some (List.cons.inj (List.cons.inj harguments).2).1

/-- Checks behind a strategy without finalizers: producers stay before consumers. -/
theorem Ordered.append_checks {strategy : List NativeOpenFOAMCommand}
    (h : Ordered plan strategy) (scopes : List ExecutionScope) :
    Ordered plan (strategy ++ scopes.map meshCheck) := by
  have hcheck : ∀ item ∈ scopes.map meshCheck, ∀ earlier, ¬ Produces plan item earlier := by
    intro item hitem earlier
    obtain ⟨scope, -, rfl⟩ := List.mem_map.1 hitem
    exact not_produces_of_isFinalizer (isFinalizer_meshCheck scope)
  refine List.pairwise_append.2 ⟨h, List.pairwise_of_forall_mem_list ?_, ?_⟩
  · exact fun earlier _ later hlater => hcheck later hlater earlier
  · exact fun earlier _ later hlater => hcheck later hlater earlier

/-! ### Commands that may run -/

/-- A command may run in a phase, and its dictionary, if it needs one, is among the paths. -/
def Runnable (phase : NativePhase) (paths : List Text) (item : NativeOpenFOAMCommand) : Prop :=
  commandPermitted item.command phase = true ∧
    ∀ path, requiredDictionary item.command item.arguments = .ok (some path) → path ≠ [] →
      path ∈ paths

/-- A command that may run and is no finalizer. -/
def Admissible (phase : NativePhase) (paths : List Text) (item : NativeOpenFOAMCommand) : Prop :=
  Runnable phase paths item ∧ isFinalizer item = false

variable {phase : NativePhase} {paths : List Text}

theorem mem_inExecutionOrder {p : NativeToolContract → Bool} {contract : NativeToolContract}
    (h : contract ∈ inExecutionOrder p) : contract ∈ registeredContracts ∧ p contract := by
  have hmem := (List.perm_insertionSort _ _).mem_iff.1 h
  exact List.mem_filter.1 hmem

/-- The consumers the controller infers may run in every edit phase, and are no finalizers. -/
theorem permitted_of_consumer {contract : NativeToolContract} (h : contract ∈ registeredContracts)
    (hconsumer : contract.controllerAutoConsumer = true ∨ contract.controllerDeltaConsumer = true)
    (hphase : phase ∈ editPhases) :
    commandPermitted contract.command phase = true ∧
      (nativeToolContract contract.command).controllerFinalizer = false := by
  have hall : ∀ contract ∈ registeredContracts,
      (contract.controllerAutoConsumer || contract.controllerDeltaConsumer) = true →
      ∀ phase ∈ editPhases, commandPermitted contract.command phase = true ∧
        (nativeToolContract contract.command).controllerFinalizer = false := by
    decide +kernel
  exact hall contract h (Bool.or_eq_true_iff.2 hconsumer) phase hphase

/-- A consumer of a scope finds its dictionary. -/
theorem admissible_of_consumerOf {contract : NativeToolContract} {scope : ExecutionScope}
    {c : Option ExecutionScope × NativeOpenFOAMCommand}
    (hpermitted : commandPermitted contract.command phase = true ∧
      (nativeToolContract contract.command).controllerFinalizer = false)
    (h : consumerOf paths contract scope = .ok (some c)) : Admissible phase paths c.2 := by
  unfold consumerOf at h
  obtain ⟨arguments, -, h⟩ := Traversal.bind_eq_ok.1 h
  obtain ⟨required, hrequired, h⟩ := Traversal.bind_eq_ok.1 h
  split at h
  · cases h
  · rename_i required
    have hsome := Except.ok.inj h
    split_ifs at hsome with hfound
    obtain rfl := Option.some.inj hsome
    refine ⟨⟨hpermitted.1, fun path hpath _ => ?_⟩, hpermitted.2⟩
    obtain rfl := Option.some.inj (Except.ok.inj (hrequired.symm.trans hpath))
    exact hfound.2

theorem admissible_of_autoMeshConsumers {found : List (Option ExecutionScope × NativeOpenFOAMCommand)}
    (hphase : phase ∈ editPhases) (h : autoMeshConsumers plan paths = .ok found) :
    ∀ c ∈ found, Admissible phase paths c.2 := by
  intro c hc
  unfold autoMeshConsumers at h
  obtain ⟨scopes, -, h⟩ := Traversal.bind_eq_ok.1 h
  obtain ⟨lists, hlists, h⟩ := Traversal.bind_eq_ok.1 h
  obtain rfl := Except.ok.inj h
  obtain ⟨list, hlist, hc⟩ := List.mem_flatten.1 hc
  obtain ⟨scope, -, hlist'⟩ := Traversal.ok_of_mem_mapM hlists hlist
  obtain ⟨contract, hcontract, hconsumer⟩ := (Traversal.mem_of_filterMapM hlist').1 hc
  obtain ⟨hregistered, hauto⟩ := mem_inExecutionOrder hcontract
  exact admissible_of_consumerOf (permitted_of_consumer hregistered (.inl hauto) hphase) hconsumer

end Engineering
end OpenFoamAgent
