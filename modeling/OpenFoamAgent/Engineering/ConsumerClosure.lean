/-
# The consumers of an edit

`auto_consumers_for_delta` (`contracts/execution_scopes.py`) selects the tools whose inputs
an edit, an explicit command or a selected tool has made dirty. Its candidates are the
tools with a dictionary of their own, for the case and for each scope, less those an
explicit command stands for.

The function raises where the scopes of the plan are not valid or where the region of
an explicit command cannot be read or bound, which its caller turns into a failure of the
delta. Otherwise its passes saturate (`Library/Saturation`): the selection is the least
set of candidates closed under overlapping paths.
-/
import OpenFoamAgent.Library.Saturation
import OpenFoamAgent.Engineering.NativePipelines

namespace OpenFoamAgent
namespace Engineering

open Python Schemas Workspace

/-! ### The rules -/

/-- The inputs of a candidate, rendered in its scope. -/
def renderedInputs (c : Option ExecutionScope × NativeOpenFOAMCommand) : List Text :=
  (nativeToolContract c.2.command).meshDependencyInputs.map (·.render c.1)

/-- Candidates need the paths that overlap their inputs and give their outputs. -/
def consumerRules :
    SaturationRules (Option ExecutionScope × NativeOpenFOAMCommand) Text (Text × List Text) where
  key c := commandToken c.2
  needs c path := (renderedInputs c).any (pathOverlap path)
  gives c := dependencyOutputs c.1 c.2

/-- The search as a saturation. -/
def ConsumerSearch.ofSaturation
    (s : Saturation (Option ExecutionScope × NativeOpenFOAMCommand) Text (Text × List Text)) :
    ConsumerSearch where
  selected := s.selected.map Prod.snd
  seen := s.seen
  dirty := s.marks

section

variable {s : Saturation (Option ExecutionScope × NativeOpenFOAMCommand) Text (Text × List Text)}
variable {c : Option ExecutionScope × NativeOpenFOAMCommand}
variable {candidates : List (Option ExecutionScope × NativeOpenFOAMCommand)}

theorem ConsumerSearch.visit_ofSaturation (h : dependencyInputs c.1 c.2 = .ok (renderedInputs c)) :
    (ofSaturation s).visit c = .ok (ofSaturation (Saturation.visit consumerRules s c)) := by
  obtain ⟨scope, invocation⟩ := c
  dsimp only at h
  unfold visit Saturation.visit
  dsimp only
  by_cases hseen : commandToken invocation ∈ s.seen
  · rw [if_pos (show commandToken invocation ∈ (ofSaturation s).seen from hseen),
      if_pos (show consumerRules.key (scope, invocation) ∈ s.seen from hseen)]
  · rw [if_neg (show commandToken invocation ∉ (ofSaturation s).seen from hseen),
      if_neg (show consumerRules.key (scope, invocation) ∉ s.seen from hseen), h]
    dsimp only
    by_cases hdirty : s.marks.any (consumerRules.needs (scope, invocation))
    · rw [if_pos hdirty, if_pos (show ((ofSaturation s).dirty.any fun path =>
        (renderedInputs (scope, invocation)).any (pathOverlap path)) = true from hdirty)]
      simp [ofSaturation, consumerRules]
    · rw [if_neg hdirty, if_neg (show ¬ ((ofSaturation s).dirty.any fun path =>
        (renderedInputs (scope, invocation)).any (pathOverlap path)) = true from hdirty)]

theorem ConsumerSearch.foldlM_ofSaturation
    (h : ∀ c ∈ candidates, dependencyInputs c.1 c.2 = .ok (renderedInputs c)) :
    candidates.foldlM visit (ofSaturation s) =
      .ok (ofSaturation (candidates.foldl (Saturation.visit consumerRules) s)) := by
  induction candidates generalizing s with
  | nil => rfl
  | cons c candidates ih =>
    obtain ⟨hc, hcandidates⟩ := List.forall_mem_cons.1 h
    rw [List.foldlM_cons, visit_ofSaturation hc, List.foldl_cons]
    exact ih hcandidates

/-- The passes of the search saturate. -/
theorem ConsumerSearch.converge_ofSaturation
    (h : ∀ c ∈ candidates, dependencyInputs c.1 c.2 = .ok (renderedInputs c)) (passes : ℕ) :
    converge candidates passes (ofSaturation s) =
      .ok (ofSaturation (Saturation.saturate consumerRules candidates passes s)) := by
  induction passes generalizing s with
  | zero => rfl
  | succ passes ih =>
    unfold converge Saturation.saturate
    rw [foldlM_ofSaturation h]
    dsimp only [bind, Except.bind]
    have hlength : ∀ t, (ofSaturation t).selected.length = t.selected.length := fun t =>
      List.length_map _
    rw [hlength, hlength]
    split_ifs
    · rfl
    · exact ih

end

/-! ### The candidates -/

/-- What the registry says of the tools the controller may infer. -/
theorem contract_of_consumer {contract : NativeToolContract} (h : contract ∈ registeredContracts)
    (hconsumer : contract.controllerAutoConsumer = true ∨ contract.controllerDeltaConsumer = true) :
    nativeToolContract contract.command = contract ∧
      (contract.controllerAutoConsumer = true → contract.takesRegion = true ∧
        contract.controllerDeltaConsumer = false) ∧
      ∀ flag ∈ ["-region", "-allRegions", "-dict", "-dictFile"],
        flag.toList ∉ contract.defaultArguments := by
  have hall : ∀ contract ∈ registeredContracts,
      (contract.controllerAutoConsumer || contract.controllerDeltaConsumer) = true →
      nativeToolContract contract.command = contract ∧
        (contract.controllerAutoConsumer = true → contract.takesRegion = true ∧
          contract.controllerDeltaConsumer = false) ∧
        ∀ flag ∈ ["-region", "-allRegions", "-dict", "-dictFile"],
          flag.toList ∉ contract.defaultArguments := by
    decide +kernel
  exact hall contract h (Bool.or_eq_true_iff.2 hconsumer)

/-- A tool the controller may infer, in a scope of the case or for the whole of it. -/
inductive IsConsumer : Option ExecutionScope × NativeOpenFOAMCommand → Prop
  | shared {contract : NativeToolContract} (h : contract ∈ registeredContracts)
    (hdelta : contract.controllerDeltaConsumer = true) :
    IsConsumer (none, controllerCommand contract contract.defaultArguments .mesh)
  | root {contract : NativeToolContract} {scope : ExecutionScope}
    (h : contract ∈ registeredContracts) (hauto : contract.controllerAutoConsumer = true)
    (hname : scope.name = none) :
    IsConsumer (some scope, controllerCommand contract contract.defaultArguments .mesh)
  | named {contract : NativeToolContract} {scope : ExecutionScope} {name : Text}
    (h : contract ∈ registeredContracts)
    (hconsumer : contract.controllerAutoConsumer = true ∨ contract.controllerDeltaConsumer = true)
    (hregion : contract.takesRegion = true) (hname : scope.name = some name)
    (hvalid : isRegionName name = true) :
    IsConsumer (some scope, controllerCommand contract
      (["-region".toList, name] ++ contract.defaultArguments) .mesh)

/-- A region name is no flag. -/
theorem ne_flag_of_isRegionName {name : Text} (h : isRegionName name = true) :
    ∀ flag ∈ ["-region", "-allRegions", "-dict", "-dictFile"], name ≠ flag.toList := by
  rintro flag hflag rfl
  revert h
  revert flag
  decide

theorem nativeCommandRegion_defaults {arguments : List Text}
    (h : ∀ flag ∈ ["-region", "-allRegions", "-dict", "-dictFile"], flag.toList ∉ arguments) :
    nativeCommandRegion arguments = .ok none := by
  have hregion : "-region".toList ∉ arguments := h "-region" (by simp)
  unfold nativeCommandRegion
  rw [List.count_eq_zero.2 hregion]
  simp

theorem nativeCommandRegion_named {arguments : List Text} {name : Text}
    (h : ∀ flag ∈ ["-region", "-allRegions", "-dict", "-dictFile"], flag.toList ∉ arguments)
    (hvalid : isRegionName name = true) :
    nativeCommandRegion (["-region".toList, name] ++ arguments) = .ok (some name) := by
  have hregion : "-region".toList ∉ arguments := h "-region" (by simp)
  have hall : "-allRegions".toList ∉ ["-region".toList, name] ++ arguments := by
    have hne : "-allRegions".toList ≠ name :=
      (ne_flag_of_isRegionName hvalid "-allRegions" (by simp)).symm
    have hrest : "-allRegions".toList ∉ arguments := h "-allRegions" (by simp)
    rw [List.mem_append, List.mem_cons, List.mem_singleton]
    rintro ((hfirst | hname) | hmem)
    · exact absurd hfirst (by decide)
    · exact hne hname
    · exact hrest hmem
  have hcount : (["-region".toList, name] ++ arguments).count "-region".toList = 1 := by
    have hne : name ≠ "-region".toList :=
      ne_flag_of_isRegionName hvalid "-region" (by simp)
    rw [List.count_append, List.count_eq_zero.2 hregion, List.count_cons_self,
      List.count_eq_zero.2 (by simpa using hne.symm)]
  have hindex : (["-region".toList, name] ++ arguments).idxOf "-region".toList = 0 := by
    rw [List.cons_append, List.idxOf_cons_self]
  unfold nativeCommandRegion
  dsimp only
  rw [hcount, hindex, if_neg (fun hboth => hall hboth.1)]
  simp [hvalid]

theorem dictOverride_eq_none {arguments : List Text} (hdict : "-dict".toList ∉ arguments)
    (hfile : "-dictFile".toList ∉ arguments) : dictOverride arguments = none := by
  simp only [dictOverride, List.findSome?_cons, List.findSome?_nil, if_neg hdict, if_neg hfile]

theorem dictOverride_defaults {arguments : List Text}
    (h : ∀ flag ∈ ["-region", "-allRegions", "-dict", "-dictFile"], flag.toList ∉ arguments) :
    dictOverride arguments = none :=
  dictOverride_eq_none (h "-dict" (by simp)) (h "-dictFile" (by simp))

theorem dictOverride_named {arguments : List Text} {name : Text}
    (h : ∀ flag ∈ ["-region", "-allRegions", "-dict", "-dictFile"], flag.toList ∉ arguments)
    (hvalid : isRegionName name = true) :
    dictOverride (["-region".toList, name] ++ arguments) = none := by
  have hout : ∀ flag ∈ ["-dict", "-dictFile"],
      flag.toList ∉ ["-region".toList, name] ++ arguments := by
    intro flag hflag
    have hlisted : flag ∈ ["-region", "-allRegions", "-dict", "-dictFile"] := by
      simp only [List.mem_cons, List.not_mem_nil, or_false] at hflag ⊢
      tauto
    have hne := ne_flag_of_isRegionName hvalid flag hlisted
    have hrest := h flag hlisted
    have hfirst : flag.toList ≠ "-region".toList := by
      clear hne hrest hlisted
      revert flag
      decide
    simp only [List.mem_append, List.mem_cons, List.not_mem_nil, or_false]
    rintro ((heq | heq) | hmem)
    · exact hfirst heq
    · exact hne heq.symm
    · exact hrest hmem
  exact dictOverride_eq_none (hout "-dict" (by simp)) (hout "-dictFile" (by simp))

namespace IsConsumer

variable {c c' : Option ExecutionScope × NativeOpenFOAMCommand}

/-- The region of a consumer can be read. -/
theorem region (h : IsConsumer c) : ∃ region, nativeCommandRegion c.2.arguments = .ok region := by
  cases h with
  | shared h hdelta =>
    exact ⟨_, nativeCommandRegion_defaults (contract_of_consumer h (.inr hdelta)).2.2⟩
  | root h hauto _ =>
    exact ⟨_, nativeCommandRegion_defaults (contract_of_consumer h (.inl hauto)).2.2⟩
  | named h hconsumer _ _ hvalid =>
    exact ⟨_, nativeCommandRegion_named (contract_of_consumer h hconsumer).2.2 hvalid⟩

/-- The dictionary of a consumer can be determined. -/
theorem dictionary (h : IsConsumer c) :
    ∃ required, requiredDictionary c.2.command c.2.arguments = .ok required := by
  obtain ⟨region, hregion⟩ := h.region
  have hnone : dictOverride c.2.arguments = none := by
    cases h with
    | shared h hdelta => exact dictOverride_defaults (contract_of_consumer h (.inr hdelta)).2.2
    | root h hauto _ => exact dictOverride_defaults (contract_of_consumer h (.inl hauto)).2.2
    | named h hconsumer _ _ hvalid =>
      exact dictOverride_named (contract_of_consumer h hconsumer).2.2 hvalid
  unfold requiredDictionary
  rw [hnone, hregion]
  cases region with
  | none => exact ⟨_, rfl⟩
  | some name => exact ⟨_, rfl⟩

/-- The arguments of a consumer are the default ones of its contract in its scope. -/
theorem arguments_eq (h : IsConsumer c) :
    (c.1 = none → requiredDictionary c.2.command c.2.arguments =
        .ok (nativeToolContract c.2.command).requiredDictionary) ∧
      ∀ s, c.1 = some s →
        contractArguments (nativeToolContract c.2.command) s = .ok c.2.arguments := by
  cases h with
  | @shared contract h hdelta =>
    obtain ⟨-, -, hflags⟩ := contract_of_consumer h (.inr hdelta)
    refine ⟨fun _ => ?_, fun s hs => (nomatch hs)⟩
    dsimp only [controllerCommand]
    unfold requiredDictionary
    rw [dictOverride_defaults hflags, nativeCommandRegion_defaults hflags]
  | @root contract scope h hauto hname =>
    obtain ⟨hself, -, -⟩ := contract_of_consumer h (.inl hauto)
    refine ⟨fun hnone => (nomatch hnone), fun s hs => ?_⟩
    obtain rfl := Option.some.inj hs
    dsimp only [controllerCommand]
    rw [hself, contractArguments, scopeArgumentsFor, hname]
    rfl
  | @named contract scope name h hconsumer hregion hname hvalid =>
    obtain ⟨hself, -, -⟩ := contract_of_consumer h hconsumer
    refine ⟨fun hnone => (nomatch hnone), fun s hs => ?_⟩
    obtain rfl := Option.some.inj hs
    dsimp only [controllerCommand]
    rw [hself, contractArguments, scopeArgumentsFor, hname]
    dsimp only
    rw [if_pos hregion]
    rfl

/-- A consumer reads its declared inputs. -/
theorem inputs (h : IsConsumer c) : dependencyInputs c.1 c.2 = .ok (renderedInputs c) := by
  obtain ⟨required, hrequired⟩ := h.dictionary
  obtain ⟨hnone, hsome⟩ := h.arguments_eq
  have hself : ∀ (l : List Text) (path : Text),
      (l.map fun value => if value = path then path else value) = l := by
    intro l path
    conv_rhs => rw [← List.map_id l]
    exact List.map_congr_left fun value _ => by split_ifs with h <;> simp [h]
  obtain ⟨scope, invocation⟩ := c
  unfold dependencyInputs
  dsimp only at hrequired hnone hsome ⊢
  cases scope with
  | none =>
    rw [← Except.ok.inj (hrequired.symm.trans (hnone rfl)), hrequired]
    cases required with
    | none => rfl
    | some path =>
      dsimp only [bind, Except.bind, pure, Except.pure]
      rw [hself, ite_self]
      rfl
  | some s =>
    dsimp only [bind, Except.bind]
    rw [hsome s rfl]
    dsimp only
    rw [hrequired]
    cases required with
    | none => rfl
    | some path =>
      dsimp only [pure, Except.pure]
      rw [hself, ite_self]
      rfl

theorem render_congr {s s' : ExecutionScope} (h : s.name = s'.name) (t : PathTemplate) :
    t.render (some s) = t.render (some s') := by
  cases t <;> simp [PathTemplate.render, scopeDirectory, h]

/-- Consumers of the same command line are the same tool in scopes of the same name. -/
theorem render_eq (h : IsConsumer c) (h' : IsConsumer c')
    (heq : commandToken c.2 = commandToken c'.2) :
    c.2 = c'.2 ∧ ∀ t : PathTemplate, t.render c.1 = t.render c'.1 := by
  obtain ⟨hcommand, harguments⟩ := Prod.mk.inj heq
  have hlength : ∀ {name : Text} {l : List Text}, l ≠ ["-region".toList, name] ++ l := fun h => by
    have hlength := congrArg List.length h
    simp only [List.length_append, List.length_cons, List.length_nil] at hlength
    omega
  cases h with
  | @shared contract h hdelta =>
    obtain ⟨hself, -, -⟩ := contract_of_consumer h (.inr hdelta)
    cases h' with
    | @shared contract' h' hdelta' =>
      obtain ⟨hself', -, -⟩ := contract_of_consumer h' (.inr hdelta')
      obtain rfl : contract = contract' := hself.symm.trans ((congrArg _ hcommand).trans hself')
      exact ⟨rfl, fun _ => rfl⟩
    | @root contract' scope' h' hauto' hname' =>
      obtain ⟨hself', hno, -⟩ := contract_of_consumer h' (.inl hauto')
      obtain rfl : contract = contract' := hself.symm.trans ((congrArg _ hcommand).trans hself')
      exact absurd hdelta (by rw [(hno hauto').2]; decide)
    | @named contract' scope' name' h' hconsumer' hregion' hname' hvalid' =>
      obtain ⟨hself', -, -⟩ := contract_of_consumer h' hconsumer'
      obtain rfl : contract = contract' := hself.symm.trans ((congrArg _ hcommand).trans hself')
      exact absurd harguments hlength
  | @root contract scope h hauto hname =>
    obtain ⟨hself, hno, -⟩ := contract_of_consumer h (.inl hauto)
    cases h' with
    | @shared contract' h' hdelta' =>
      obtain ⟨hself', -, -⟩ := contract_of_consumer h' (.inr hdelta')
      obtain rfl : contract = contract' := hself.symm.trans ((congrArg _ hcommand).trans hself')
      exact absurd hdelta' (by rw [(hno hauto).2]; decide)
    | @root contract' scope' h' hauto' hname' =>
      obtain ⟨hself', -, -⟩ := contract_of_consumer h' (.inl hauto')
      obtain rfl : contract = contract' := hself.symm.trans ((congrArg _ hcommand).trans hself')
      exact ⟨rfl, render_congr (hname.trans hname'.symm)⟩
    | @named contract' scope' name' h' hconsumer' hregion' hname' hvalid' =>
      obtain ⟨hself', -, -⟩ := contract_of_consumer h' hconsumer'
      obtain rfl : contract = contract' := hself.symm.trans ((congrArg _ hcommand).trans hself')
      exact absurd harguments hlength
  | @named contract scope name h hconsumer hregion hname hvalid =>
    obtain ⟨hself, -, -⟩ := contract_of_consumer h hconsumer
    cases h' with
    | @shared contract' h' hdelta' =>
      obtain ⟨hself', -, -⟩ := contract_of_consumer h' (.inr hdelta')
      obtain rfl : contract = contract' := hself.symm.trans ((congrArg _ hcommand).trans hself')
      exact absurd harguments.symm hlength
    | @root contract' scope' h' hauto' hname' =>
      obtain ⟨hself', -, -⟩ := contract_of_consumer h' (.inl hauto')
      obtain rfl : contract = contract' := hself.symm.trans ((congrArg _ hcommand).trans hself')
      exact absurd harguments.symm hlength
    | @named contract' scope' name' h' hconsumer' hregion' hname' hvalid' =>
      obtain ⟨hself', -, -⟩ := contract_of_consumer h' hconsumer'
      obtain rfl : contract = contract' := hself.symm.trans ((congrArg _ hcommand).trans hself')
      obtain rfl : name = name' := (List.cons.inj (List.cons.inj harguments).2).1
      exact ⟨rfl, render_congr (hname.trans hname'.symm)⟩

end IsConsumer

/-- Consumers are told apart by their command lines. -/
theorem keyed_of_isConsumer {candidates : List (Option ExecutionScope × NativeOpenFOAMCommand)}
    (h : ∀ c ∈ candidates, IsConsumer c) : Saturation.Keyed consumerRules candidates := by
  intro c hc c' hc' hkey
  obtain ⟨heq, hrender⟩ := (h c hc).render_eq (h c' hc') hkey
  simp only [consumerRules, renderedInputs, dependencyOutputs, heq, hrender, and_self]

/-! ### When the candidates can be compiled -/

/-- The candidates of `auto_consumers_for_delta`, before those an explicit command stands for go. -/
def consumerCandidates (plan : EngineeringPlan) (paths : List Text) :
    Except ScopeError (List (Option ExecutionScope × NativeOpenFOAMCommand)) := do
  let candidates ← autoMeshConsumers plan paths
  let scopes ← declaredScopes plan
  return candidates ++ (← deltaConsumers scopes paths)

/-- The scopes of the plan are valid, and named by names a command line can carry. -/
structure ScopesReadable (plan : EngineeringPlan) : Prop where
  valid : ∃ scopes, declaredScopes plan = .ok scopes
  names : ∀ scope ∈ executionScopes plan, ∀ name, scope.name = some name →
    isRegionName name = true

/-- The scopes are readable, and so are the regions of the explicit commands, each of which is
bound to one scope where its paths depend on it. -/
structure Bindable (plan : EngineeringPlan) (explicit : List NativeOpenFOAMCommand) : Prop
    extends ScopesReadable plan where
  regions : ∀ invocation ∈ explicit, ∃ region,
    nativeCommandRegion invocation.arguments = .ok region
  bound : ∀ invocation ∈ explicit, ∃ scope, explicitScope plan invocation = .ok scope

variable {plan : EngineeringPlan} {paths changed : List Text}
variable {explicit selected : List NativeOpenFOAMCommand}

/-- The consumer of a readable scope can be compiled, and is one of the tools inferred. -/
theorem consumerOf_eq_ok {contract : NativeToolContract} {scope : ExecutionScope}
    (h : contract ∈ registeredContracts)
    (hconsumer : contract.controllerAutoConsumer = true ∨
      contract.controllerDeltaConsumer = true ∧ contract.takesRegion = true ∧ scope.name.isSome)
    (hname : ∀ name, scope.name = some name → isRegionName name = true) :
    ∃ found, consumerOf paths contract scope = .ok found ∧ ∀ c ∈ found, IsConsumer c := by
  obtain ⟨hself, hauto, -⟩ := contract_of_consumer h (hconsumer.imp_right fun hdelta => hdelta.1)
  have hregion : contract.takesRegion = true :=
    hconsumer.elim (fun h => (hauto h).1) fun hdelta => hdelta.2.1
  obtain ⟨arguments, harguments, hcandidate⟩ : ∃ arguments,
      contractArguments contract scope = .ok arguments ∧
        IsConsumer (some scope, controllerCommand contract arguments .mesh) := by
    unfold contractArguments scopeArgumentsFor
    cases hscope : scope.name with
    | none =>
      have hroot : contract.controllerAutoConsumer = true :=
        hconsumer.resolve_right fun hdelta => by simp [hscope] at hdelta
      exact ⟨_, rfl, .root h hroot hscope⟩
    | some name =>
      dsimp only
      rw [if_pos hregion]
      exact ⟨_, rfl, .named h (hconsumer.imp_right fun hdelta => hdelta.1) hregion hscope
        (hname name hscope)⟩
  obtain ⟨required, hrequired⟩ := hcandidate.dictionary
  unfold consumerOf
  rw [harguments]
  dsimp only [bind, Except.bind]
  rw [show requiredDictionary contract.command arguments = .ok required from hrequired]
  cases required with
  | none => exact ⟨none, rfl, fun _ hc => nomatch hc⟩
  | some path =>
    refine ⟨_, rfl, fun c hc => ?_⟩
    split_ifs at hc
    · obtain rfl := Option.some.inj hc
      exact hcandidate
    · cases hc

/-- With readable scopes the consumers of dictionaries can be compiled. -/
theorem autoMeshConsumers_eq_ok (paths : List Text) (h : ScopesReadable plan) :
    ∃ found, autoMeshConsumers plan paths = .ok found ∧ ∀ c ∈ found, IsConsumer c := by
  obtain ⟨scopes, hscopes⟩ := h.valid
  have hnames := h.names
  rw [← declaredScopes_eq_ok hscopes] at hnames
  have hone : ∀ scope ∈ scopes, ∀ contract ∈ inExecutionOrder (·.controllerAutoConsumer),
      ∃ found, consumerOf paths contract scope = .ok found ∧ ∀ c ∈ found, IsConsumer c :=
    fun scope hscope contract hcontract =>
      consumerOf_eq_ok (mem_inExecutionOrder hcontract).1 (.inl (mem_inExecutionOrder hcontract).2)
        (hnames scope hscope)
  obtain ⟨found, hfound⟩ := Traversal.mapM_progress fun scope hscope =>
    Traversal.filterMapM_progress fun contract hcontract =>
      (hone scope hscope contract hcontract).imp fun _ hok => hok.1
  refine ⟨found.flatten, ?_, fun c hc => ?_⟩
  · unfold autoMeshConsumers
    exact Traversal.bind_eq_ok.2 ⟨scopes, hscopes, Traversal.bind_eq_ok.2 ⟨found, hfound, rfl⟩⟩
  · obtain ⟨list, hlist, hc⟩ := List.mem_flatten.1 hc
    obtain ⟨scope, hscope, hlist'⟩ := Traversal.ok_of_mem_mapM hfound hlist
    obtain ⟨contract, hcontract, hconsumer⟩ := (Traversal.mem_of_filterMapM hlist').1 hc
    obtain ⟨found', hfound', hall⟩ := hone scope hscope contract hcontract
    exact hall c (Except.ok.inj (hfound'.symm.trans hconsumer))

/-- With readable scopes the consumers of an edit can be compiled. -/
theorem deltaConsumers_eq_ok (paths : List Text) {scopes : List ExecutionScope}
    (hnames : ∀ scope ∈ scopes, ∀ name, scope.name = some name → isRegionName name = true) :
    ∃ found, deltaConsumers scopes paths = .ok found ∧ ∀ c ∈ found, IsConsumer c := by
  have hone : ∀ contract ∈ registeredContracts.filter (·.controllerDeltaConsumer),
      ∀ scope ∈ scopes.filter fun scope => contract.takesRegion && scope.name.isSome,
      ∃ found, consumerOf paths contract scope = .ok found ∧ ∀ c ∈ found, IsConsumer c := by
    intro contract hcontract scope hscope
    obtain ⟨hcontract, hdelta⟩ := List.mem_filter.1 hcontract
    obtain ⟨hscope, hnamed⟩ := List.mem_filter.1 hscope
    obtain ⟨hregion, hsome⟩ := Bool.and_eq_true_iff.1 hnamed
    exact consumerOf_eq_ok hcontract (.inr ⟨hdelta, hregion, hsome⟩) (hnames scope hscope)
  have hlists : ∀ contract ∈ registeredContracts.filter (·.controllerDeltaConsumer),
      ∃ named, (scopes.filter fun scope => contract.takesRegion && scope.name.isSome).filterMapM
        (consumerOf paths contract) = .ok named := fun contract hcontract =>
    Traversal.filterMapM_progress fun scope hscope =>
      (hone contract hcontract scope hscope).imp fun _ hok => hok.1
  have hshared : ∀ contract ∈ registeredContracts.filter (·.controllerDeltaConsumer),
      IsConsumer (none, controllerCommand contract contract.defaultArguments .mesh) :=
    fun contract hcontract =>
      .shared (List.mem_filter.1 hcontract).1 (List.mem_filter.1 hcontract).2
  unfold deltaConsumers
  refine Exists.elim (Traversal.mapM_progress fun contract hcontract => ?_) fun found hfound =>
    ⟨found.flatten, Traversal.bind_eq_ok.2 ⟨found, hfound, rfl⟩, fun c hc => ?_⟩
  · obtain ⟨named, hnamed⟩ := hlists contract hcontract
    exact ⟨_, Traversal.bind_eq_ok.2 ⟨named, hnamed, rfl⟩⟩
  · obtain ⟨list, hlist, hc⟩ := List.mem_flatten.1 hc
    obtain ⟨contract, hcontract, hlist'⟩ := Traversal.ok_of_mem_mapM hfound hlist
    obtain ⟨named, hnamed, hlist'⟩ := Traversal.bind_eq_ok.1 hlist'
    obtain rfl := Except.ok.inj hlist'
    rcases List.mem_append.1 hc with hc | hc
    · split_ifs at hc
      · exact List.mem_singleton.1 hc ▸ hshared contract hcontract
      · cases hc
    · obtain ⟨scope, hscope, hconsumer⟩ := (Traversal.mem_of_filterMapM hnamed).1 hc
      obtain ⟨found', hfound', hall⟩ := hone contract hcontract scope hscope
      exact hall c (Except.ok.inj (hfound'.symm.trans hconsumer))

/-- With readable scopes the candidates can be compiled. -/
theorem consumerCandidates_eq_ok (paths : List Text) (h : ScopesReadable plan) :
    ∃ candidates, consumerCandidates plan paths = .ok candidates ∧
      ∀ c ∈ candidates, IsConsumer c := by
  obtain ⟨auto, hauto, hautoAll⟩ := autoMeshConsumers_eq_ok paths h
  obtain ⟨scopes, hscopes⟩ := h.valid
  have hnames := h.names
  rw [← declaredScopes_eq_ok hscopes] at hnames
  obtain ⟨shared, hshared, hsharedAll⟩ := deltaConsumers_eq_ok paths hnames
  refine ⟨auto ++ shared, ?_, List.forall_mem_append.2 ⟨hautoAll, hsharedAll⟩⟩
  exact Traversal.bind_eq_ok.2 ⟨auto, hauto, Traversal.bind_eq_ok.2 ⟨scopes, hscopes,
    Traversal.bind_eq_ok.2 ⟨shared, hshared, rfl⟩⟩⟩

/-- The dictionary of a named scope is looked up under its name. -/
theorem isRegionName_of_consumerOf {contract : NativeToolContract} {scope : ExecutionScope}
    {name : Text} {found : Option (Option ExecutionScope × NativeOpenFOAMCommand)}
    (hregion : contract.takesRegion = true) (hdefaults : contract.defaultArguments = [])
    (hname : scope.name = some name) (h : consumerOf paths contract scope = .ok found) :
    isRegionName name = true := by
  have harguments : contractArguments contract scope = .ok ["-region".toList, name] := by
    unfold contractArguments scopeArgumentsFor
    rw [hname, hdefaults]
    dsimp only
    rw [if_pos hregion]
    rfl
  unfold consumerOf at h
  obtain ⟨arguments, hok, h⟩ := Traversal.bind_eq_ok.1 h
  obtain rfl := Except.ok.inj (harguments.symm.trans hok)
  obtain ⟨required, hrequired, -⟩ := Traversal.bind_eq_ok.1 h
  by_contra hinvalid
  have herror : ∃ e, nativeCommandRegion ["-region".toList, name] = .error e := by
    unfold nativeCommandRegion
    dsimp only
    split_ifs with hall hmany hnone
    · exact ⟨_, rfl⟩
    · exact ⟨_, rfl⟩
    · simp at hnone
    · simp [hinvalid]
  obtain ⟨e, herror⟩ := herror
  -- nothing stands behind a name that is the flag of a dictionary
  have hnothing : ∀ flag : String, flag.toList ≠ "-region".toList →
      (if flag.toList ∈ ["-region".toList, name] then
        ["-region".toList, name][["-region".toList, name].idxOf flag.toList + 1]? else none) =
      none := by
    intro flag hflag
    rw [List.idxOf_cons_ne _ hflag.symm]
    split_ifs
    · simp
    · rfl
  have hoverride : dictOverride ["-region".toList, name] = none := by
    simp only [dictOverride, List.findSome?_cons, List.findSome?_nil,
      hnothing "-dict" (by decide), hnothing "-dictFile" (by decide)]
  unfold requiredDictionary at hrequired
  rw [hoverride, herror] at hrequired
  cases hrequired

/-- Candidates that were compiled had readable scopes. -/
theorem scopesReadable_of_autoMeshConsumers
    {found : List (Option ExecutionScope × NativeOpenFOAMCommand)}
    (h : autoMeshConsumers plan paths = .ok found) : ScopesReadable plan := by
  unfold autoMeshConsumers at h
  obtain ⟨scopes, hscopes, h⟩ := Traversal.bind_eq_ok.1 h
  obtain ⟨lists, hlists, -⟩ := Traversal.bind_eq_ok.1 h
  refine ⟨⟨scopes, hscopes⟩, fun scope hscope name hname => ?_⟩
  rw [← declaredScopes_eq_ok hscopes] at hscope
  obtain ⟨list, -, hlist⟩ := Traversal.exists_mem_of_mapM hlists hscope
  have hblock : nativeToolContract "blockMesh".toList ∈
      inExecutionOrder (·.controllerAutoConsumer) := by
    decide +kernel
  obtain ⟨found', hfound'⟩ := Traversal.ok_of_filterMapM hlist hblock
  exact isRegionName_of_consumerOf (by decide +kernel) (by decide +kernel) hname hfound'

/-! ### The selection -/

/-- The candidates no explicit command stands for. -/
def uncovered (explicit : List NativeOpenFOAMCommand)
    (candidates : List (Option ExecutionScope × NativeOpenFOAMCommand)) :
    List (Option ExecutionScope × NativeOpenFOAMCommand) :=
  candidates.filter fun c => ∀ e ∈ explicit, explicitKey e ≠ explicitKey c.2

/-- The paths dirty at the start: those of the edit and the outputs of the explicit commands. -/
def startPaths (plan : EngineeringPlan) (explicit : List NativeOpenFOAMCommand)
    (changed : List Text) : List Text :=
  changed.map posixText ++ explicit.flatMap fun e =>
    match explicitScope plan e with
    | .ok scope => dependencyOutputs scope e
    | .error _ => []

/-- The search as it starts. -/
def startSearch (plan : EngineeringPlan) (explicit : List NativeOpenFOAMCommand)
    (changed : List Text) : ConsumerSearch where
  seen := explicit.map commandToken
  dirty := startPaths plan explicit changed

/-- The function is a search over the uncovered candidates. -/
theorem autoConsumersForDelta_eq (h : Bindable plan explicit)
    {candidates : List (Option ExecutionScope × NativeOpenFOAMCommand)}
    (hcandidates : consumerCandidates plan paths = .ok candidates)
    (hall : ∀ c ∈ candidates, IsConsumer c) :
    autoConsumersForDelta plan paths changed explicit =
      (ConsumerSearch.converge (uncovered explicit candidates)
        ((uncovered explicit candidates).length + 1) (startSearch plan explicit changed)).map
          (·.selected) := by
  unfold consumerCandidates at hcandidates
  obtain ⟨auto, hauto, hcandidates⟩ := Traversal.bind_eq_ok.1 hcandidates
  obtain ⟨scopes, hscopes, hcandidates⟩ := Traversal.bind_eq_ok.1 hcandidates
  obtain ⟨shared, hshared, hcandidates⟩ := Traversal.bind_eq_ok.1 hcandidates
  obtain rfl := Except.ok.inj hcandidates
  obtain ⟨outputs, houtputs⟩ : ∃ outputs, (explicit.mapM fun invocation =>
      (explicitScope plan invocation).map fun scope => dependencyOutputs scope invocation) =
        .ok outputs :=
    Traversal.mapM_progress fun e he => by
      obtain ⟨scope, hscope⟩ := h.bound e he
      exact ⟨dependencyOutputs scope e, by rw [hscope]; rfl⟩
  obtain ⟨keys, hkeys⟩ : ∃ keys, explicit.mapM explicitKey = .ok keys :=
    Traversal.mapM_progress fun e he => by
      obtain ⟨region, hregion⟩ := h.regions e he
      exact ⟨(e.command, region), by rw [explicitKey, hregion]; rfl⟩
  have houtputsEq : outputs = explicit.map fun e =>
      match explicitScope plan e with
      | .ok scope => dependencyOutputs scope e
      | .error _ => [] :=
    Traversal.map_of_mapM houtputs fun e _ list hlist => by
      cases hscope : explicitScope plan e with
      | error => rw [hscope] at hlist; cases hlist
      | ok scope => rw [hscope] at hlist; exact (Except.ok.inj hlist).symm
  have hfilter : ((auto ++ shared).filterM fun candidate =>
      (explicitKey candidate.2).map fun key => decide (key ∉ keys)) =
        .ok (uncovered explicit (auto ++ shared)) := by
    refine Traversal.filterM_eq_ok fun c hc => ?_
    obtain ⟨region, hregion⟩ := (hall c hc).region
    have hkey : explicitKey c.2 = .ok (c.2.command, region) := by rw [explicitKey, hregion]; rfl
    have hout : (c.2.command, region) ∉ keys ↔
        ∀ e ∈ explicit, explicitKey e ≠ .ok (c.2.command, region) := by
      constructor
      · intro hnot e he heq
        obtain ⟨key, hmem, hok⟩ := Traversal.exists_mem_of_mapM hkeys he
        exact hnot (Except.ok.inj (heq.symm.trans hok) ▸ hmem)
      · intro hnot hmem
        obtain ⟨e, he, hok⟩ := Traversal.ok_of_mem_mapM hkeys hmem
        exact hnot e he hok
    simp only [hkey, Except.map, hout]
  unfold autoConsumersForDelta
  rw [hauto]
  dsimp only [bind, Except.bind]
  rw [hscopes]
  dsimp only
  rw [hshared]
  dsimp only
  rw [houtputs]
  dsimp only
  rw [hkeys]
  dsimp only
  rw [hfilter, houtputsEq, ← List.flatMap_def]
  rfl

/-- The selected commands are those of the least set of candidates that is closed under paths
overlapping the start paths or an output of the set, each of them once. -/
structure LeastConsumers (candidates : List (Option ExecutionScope × NativeOpenFOAMCommand))
    (start : List Text) (selected : List NativeOpenFOAMCommand) : Prop where
  once : (selected.map commandToken).Nodup
  chosen : ∀ invocation ∈ selected, ∃ c ∈ candidates, c.2 = invocation
  least : IsLeast {closed | Saturation.Closed consumerRules candidates start closed}
    {c | c ∈ candidates ∧ c.2 ∈ selected}

/-- The selection depends on the members of the two lists alone. -/
theorem LeastConsumers.congr
    {candidates candidates' : List (Option ExecutionScope × NativeOpenFOAMCommand)}
    {start start' : List Text} {selected' : List NativeOpenFOAMCommand}
    (h : LeastConsumers candidates start selected)
    (h' : LeastConsumers candidates' start' selected')
    (hc : ∀ c, c ∈ candidates' ↔ c ∈ candidates) (hs : ∀ p, p ∈ start' ↔ p ∈ start)
    (invocation : NativeOpenFOAMCommand) : invocation ∈ selected' ↔ invocation ∈ selected := by
  have hclosed : {closed | Saturation.Closed consumerRules candidates' start' closed} =
      {closed | Saturation.Closed consumerRules candidates start closed} :=
    Set.ext fun closed => Saturation.Closed.congr consumerRules hc hs
  have heq := (hclosed ▸ h'.least).unique h.least
  constructor
  · intro hmem
    obtain ⟨c, hcand, rfl⟩ := h'.chosen invocation hmem
    exact (heq.subset ⟨hcand, hmem⟩).2
  · intro hmem
    obtain ⟨c, hcand, rfl⟩ := h.chosen invocation hmem
    exact (heq.superset ⟨hcand, hmem⟩).2

/-- **The search.** It comes to an end, whatever the order of the candidates, with their least
closed set. -/
theorem converge_least (plan : EngineeringPlan) (changed : List Text)
    {candidates : List (Option ExecutionScope × NativeOpenFOAMCommand)}
    (hall : ∀ c ∈ candidates, IsConsumer c)
    (hfresh : ∀ c ∈ candidates, commandToken c.2 ∉ explicit.map commandToken) :
    ∃ s : ConsumerSearch, LeastConsumers candidates (startPaths plan explicit changed) s.selected ∧
      candidates.foldlM ConsumerSearch.visit s = .ok s ∧
      ∀ passes, candidates.length < passes →
        ConsumerSearch.converge candidates passes (startSearch plan explicit changed) = .ok s := by
  have hinputs : ∀ c ∈ candidates, dependencyInputs c.1 c.2 = .ok (renderedInputs c) :=
    fun c hc => (hall c hc).inputs
  have hkeyed := keyed_of_isConsumer hall
  have hgrown : Saturation.Grown consumerRules candidates (explicit.map commandToken)
      (startPaths plan explicit changed)
      { seen := explicit.map commandToken, marks := startPaths plan explicit changed } := .start
  have hleast := Saturation.isLeast_saturate (startPaths plan explicit changed) hkeyed hfresh
    (Nat.lt_succ_self candidates.length)
  have hend := hgrown.saturate hkeyed (candidates.length + 1)
  have hstable := Saturation.saturate_stable hkeyed hgrown (candidates.length + 1) (by simp)
  have hmore := Saturation.saturate_add hkeyed hgrown (candidates.length + 1) (by simp)
  generalize hs : Saturation.saturate consumerRules candidates (candidates.length + 1)
    { seen := explicit.map commandToken, marks := startPaths plan explicit changed } = s at *
  have hkeys : (s.selected.map Prod.snd).map commandToken = s.selected.map consumerRules.key :=
    List.map_map ..
  refine ⟨.ofSaturation s, ⟨?_, fun invocation hinvocation => ?_, ?_⟩, ?_, fun passes hpasses => ?_⟩
  · exact hkeys ▸ hend.once
  · obtain ⟨c, hc, rfl⟩ := List.mem_map.1 hinvocation
    exact ⟨c, hend.chosen c hc, rfl⟩
  · have hset : {c | c ∈ candidates ∧ c.2 ∈ s.selected.map Prod.snd} =
        {c | c ∈ candidates ∧ consumerRules.key c ∈ s.selected.map consumerRules.key} := by
      ext c
      refine and_congr_right fun hc => ⟨fun hmem => ?_, fun hkey => ?_⟩
      · obtain ⟨c', hc', heq⟩ := List.mem_map.1 hmem
        exact List.mem_map.2 ⟨c', hc', congrArg commandToken heq⟩
      · obtain ⟨c', hc', heq⟩ := List.mem_map.1 hkey
        exact List.mem_map.2
          ⟨c', hc', ((hall c' (hend.chosen c' hc')).render_eq (hall c hc) heq).1⟩
    exact hset ▸ hleast
  · rw [ConsumerSearch.foldlM_ofSaturation hinputs, Saturation.foldl_eq_of_visit hstable]
  · obtain ⟨more, rfl⟩ := Nat.exists_eq_add_of_le hpasses
    exact (ConsumerSearch.converge_ofSaturation hinputs _).trans
      (congrArg (fun t => Except.ok (ConsumerSearch.ofSaturation t)) (hmore more))

/-- No explicit command has the command line of a candidate it does not stand for. -/
theorem fresh_of_uncovered {candidates : List (Option ExecutionScope × NativeOpenFOAMCommand)}
    {c : Option ExecutionScope × NativeOpenFOAMCommand} (hc : c ∈ uncovered explicit candidates) :
    commandToken c.2 ∉ explicit.map commandToken := by
  intro hmem
  obtain ⟨e, he, heq⟩ := List.mem_map.1 hmem
  obtain ⟨hcommand, harguments⟩ := Prod.mk.inj heq
  have hout := of_decide_eq_true (List.mem_filter.1 hc).2 e he
  exact hout (by rw [explicitKey, explicitKey, hcommand, harguments])

/-- Where the function returns, the explicit commands were bound. -/
theorem bindable_of_autoConsumersForDelta
    (h : autoConsumersForDelta plan paths changed explicit = .ok selected) :
    Bindable plan explicit := by
  unfold autoConsumersForDelta at h
  obtain ⟨auto, hauto, h⟩ := Traversal.bind_eq_ok.1 h
  obtain ⟨scopes, -, h⟩ := Traversal.bind_eq_ok.1 h
  obtain ⟨shared, -, h⟩ := Traversal.bind_eq_ok.1 h
  obtain ⟨outputs, houtputs, h⟩ := Traversal.bind_eq_ok.1 h
  obtain ⟨keys, hkeys, -⟩ := Traversal.bind_eq_ok.1 h
  refine ⟨scopesReadable_of_autoMeshConsumers hauto, fun e he => ?_, fun e he => ?_⟩
  · obtain ⟨key, -, hkey⟩ := Traversal.exists_mem_of_mapM hkeys he
    unfold explicitKey at hkey
    cases hregion : nativeCommandRegion e.arguments with
    | error => rw [hregion] at hkey; cases hkey
    | ok region => exact ⟨region, rfl⟩
  · obtain ⟨list, -, hlist⟩ := Traversal.exists_mem_of_mapM houtputs he
    cases hscope : explicitScope plan e with
    | error => rw [hscope] at hlist; cases hlist
    | ok scope => exact ⟨scope, rfl⟩

/-- Where the explicit commands can be bound, the function returns what its search selects. -/
theorem autoConsumersForDelta_searches (paths changed : List Text) (h : Bindable plan explicit) :
    ∃ candidates, consumerCandidates plan paths = .ok candidates ∧
      (∀ c ∈ uncovered explicit candidates, IsConsumer c) ∧
      ∃ s : ConsumerSearch, autoConsumersForDelta plan paths changed explicit = .ok s.selected ∧
        LeastConsumers (uncovered explicit candidates) (startPaths plan explicit changed)
          s.selected ∧
        (uncovered explicit candidates).foldlM ConsumerSearch.visit s = .ok s ∧
        ∀ passes, (uncovered explicit candidates).length < passes →
          ConsumerSearch.converge (uncovered explicit candidates) passes
            (startSearch plan explicit changed) = .ok s := by
  obtain ⟨candidates, hcandidates, hall⟩ := consumerCandidates_eq_ok paths h.toScopesReadable
  have hall' : ∀ c ∈ uncovered explicit candidates, IsConsumer c := fun c hc =>
    hall c (List.mem_filter.1 hc).1
  obtain ⟨s, hleast, hstable, hpasses⟩ := converge_least plan changed hall'
    fun c hc => fresh_of_uncovered hc
  refine ⟨candidates, hcandidates, hall', s, ?_, hleast, hstable, hpasses⟩
  rw [autoConsumersForDelta_eq h hcandidates hall, hpasses _ (Nat.lt_succ_self _)]
  rfl

/-- **The consumers of an edit.** For every plan, paths, changed paths and explicit commands,
`auto_consumers_for_delta` returns exactly when the scopes are readable and the explicit commands
can be bound. What it returns is the least closed set of the uncovered candidates, each once, and
none that an explicit command stands for. Its passes come to an end in it, and in the same set for
every order of the candidates and of the changed paths. -/
theorem autoConsumersForDelta_least (plan : EngineeringPlan) (paths changed : List Text)
    (explicit : List NativeOpenFOAMCommand) :
    ((∃ selected, autoConsumersForDelta plan paths changed explicit = .ok selected) ↔
      Bindable plan explicit) ∧
    ∀ selected, autoConsumersForDelta plan paths changed explicit = .ok selected →
      ∃ candidates, consumerCandidates plan paths = .ok candidates ∧
        LeastConsumers (uncovered explicit candidates) (startPaths plan explicit changed) selected ∧
        (∀ invocation ∈ selected, ∀ e ∈ explicit, explicitKey e ≠ explicitKey invocation) ∧
        (∃ s : ConsumerSearch, s.selected = selected ∧
          (uncovered explicit candidates).foldlM ConsumerSearch.visit s = .ok s ∧
          ∀ passes, (uncovered explicit candidates).length < passes →
            ConsumerSearch.converge (uncovered explicit candidates) passes
              (startSearch plan explicit changed) = .ok s) ∧
        ∀ candidates' changed', candidates'.Perm (uncovered explicit candidates) →
          (∀ p, p ∈ changed' ↔ p ∈ changed) →
          ∃ s : ConsumerSearch, ConsumerSearch.converge candidates' (candidates'.length + 1)
              (startSearch plan explicit changed') = .ok s ∧
            ∀ invocation, invocation ∈ s.selected ↔ invocation ∈ selected := by
  refine ⟨⟨fun ⟨selected, h⟩ => bindable_of_autoConsumersForDelta h, fun h => ?_⟩, fun selected h => ?_⟩
  · obtain ⟨candidates, -, -, s, hs, -⟩ := autoConsumersForDelta_searches paths changed h
    exact ⟨s.selected, hs⟩
  · obtain ⟨candidates, hcandidates, hall, s, hs, hleast, hstable, hpasses⟩ :=
      autoConsumersForDelta_searches paths changed (bindable_of_autoConsumersForDelta h)
    obtain rfl := Except.ok.inj (hs.symm.trans h)
    refine ⟨candidates, hcandidates, hleast, fun invocation hinvocation => ?_,
      ⟨s, rfl, hstable, hpasses⟩, fun candidates' changed' hperm hsame => ?_⟩
    · obtain ⟨c, hc, rfl⟩ := hleast.chosen invocation hinvocation
      exact of_decide_eq_true (List.mem_filter.1 hc).2
    · obtain ⟨s', hleast', -, hpasses'⟩ := converge_least plan changed'
        (fun c hc => hall c (hperm.mem_iff.1 hc)) fun c hc =>
          fresh_of_uncovered (hperm.mem_iff.1 hc)
      refine ⟨s', hpasses' _ (Nat.lt_succ_self _), ?_⟩
      refine hleast.congr hleast' (fun c => hperm.mem_iff) fun p => ?_
      simp only [startPaths, List.mem_append, List.mem_map, hsame]

/-- An explicit command whose region has no name is refused. -/
theorem nameless_region_raises :
    ¬ ∀ plan paths changed explicit, ∃ selected,
      autoConsumersForDelta plan paths changed explicit = .ok selected := by
  intro h
  obtain ⟨selected, hselected⟩ := h (planRequiring ["system/controlDict"]) [] []
    [{ command := "topoSet".toList, arguments := ["-region".toList] }]
  have herror : autoConsumersForDelta (planRequiring ["system/controlDict"]) [] []
      [{ command := "topoSet".toList, arguments := ["-region".toList] }] =
        .error .missingRegion := by
    decide +kernel
  cases herror.symm.trans hselected

end Engineering
end OpenFoamAgent
