/-
# What the gate lets through

The launcher and the gate agree on every vector built from an approved
specification whose own arguments do not name the case or the parallel flag,
which belong to the controller; a vector built from any other specification is
refused (`validate_executionVector`). What the gate accepts is the approved
command once the overrides of the case and the parallel flag are struck out
(`Stripped`), and the runner creates a process that solves in no other way.
-/
import OpenFoamAgent.Contracts.RepairRuns
import OpenFoamAgent.Runtime.ExecutionPolicy

namespace OpenFoamAgent
namespace Runtime

open Python Schemas Workspace Contracts Engineering

variable {parallel : Document → ParallelExecution} {host : NativeHost} {resolve : Text → Text}
  {cwd : Text} {timeout ranks : ℕ} {tokens out : List Text} {execution : ExecutionSpec}

/-! ### Striking out -/

/-- The tokens are struck out of a command: pairs that override the case with the approved one, and
the flag of a parallel run. -/
inductive Stripped (resolve : Text → Text) (cwd : Text) (ranks : ℕ) :
    List Text → List Text → Prop
  | nil : Stripped resolve cwd ranks [] []
  | caseOverride {value : Text} {rest out : List Text} : resolve value = cwd →
      Stripped resolve cwd ranks rest out →
      Stripped resolve cwd ranks ("-case".toList :: value :: rest) out
  | parallel {rest out : List Text} : 1 < ranks → Stripped resolve cwd ranks rest out →
      Stripped resolve cwd ranks ("-parallel".toList :: rest) out
  | keep {token : Text} {rest out : List Text} : token ≠ "-case".toList →
      ¬ (token = "-parallel".toList ∧ 1 < ranks) → Stripped resolve cwd ranks rest out →
      Stripped resolve cwd ranks (token :: rest) (token :: out)

/-- The controller owns the token. -/
def Owned (ranks : ℕ) (token : Text) : Prop :=
  token = "-case".toList ∨ token = "-parallel".toList ∧ 1 < ranks

theorem stripped_of_normalizeArguments
    (h : normalizeArguments resolve cwd ranks tokens = .ok out) :
    Stripped resolve cwd ranks tokens out := by
  fun_induction normalizeArguments resolve cwd ranks tokens generalizing out with
  | case1 =>
    obtain rfl := Except.ok.inj h
    exact .nil
  | case2 | case3 => cases h
  | case4 value rest hvalue ih => exact .caseOverride (not_not.1 hvalue) (ih h)
  | case5 token rest hcase hparallel ih =>
    rw [hparallel.1]
    exact .parallel hparallel.2 (ih h)
  | case6 token rest hcase hparallel ih =>
    rcases hrest : normalizeArguments resolve cwd ranks rest with e | kept
    · rw [hrest] at h
      cases h
    · rw [hrest] at h
      obtain rfl := Except.ok.inj h
      exact .keep hcase hparallel (ih hrest)

/-- What is left is not owned by the controller. -/
theorem Stripped.not_owned (h : Stripped resolve cwd ranks tokens out) :
    ∀ token ∈ out, ¬ Owned ranks token := by
  induction h with
  | nil => nofun
  | caseOverride _ _ ih | parallel _ _ ih => exact ih
  | keep hcase hparallel _ ih =>
    intro token htoken
    rcases List.mem_cons.1 htoken with rfl | htoken
    · exact fun howned => howned.elim hcase hparallel
    · exact ih token htoken

theorem normalizeArguments_cons {token : Text} (h : ¬ Owned ranks token) :
    normalizeArguments resolve cwd ranks (token :: tokens) =
      (normalizeArguments resolve cwd ranks tokens).map (token :: ·) := by
  rw [normalizeArguments.eq_def]
  dsimp only
  rw [if_neg fun hcase => h (.inl hcase), if_neg fun hparallel => h (.inr hparallel)]

/-- Tokens the controller does not own are kept. -/
theorem normalizeArguments_append (h : ∀ token ∈ tokens, ¬ Owned ranks token)
    (tail : List Text) :
    normalizeArguments resolve cwd ranks (tokens ++ tail) =
      (normalizeArguments resolve cwd ranks tail).map (tokens ++ ·) := by
  induction tokens with
  | nil =>
    rw [List.nil_append]
    rcases normalizeArguments resolve cwd ranks tail with e | kept <;> rfl
  | cons token tokens ih =>
    rw [List.cons_append, normalizeArguments_cons (h token List.mem_cons_self),
      ih fun t ht => h t (List.mem_cons_of_mem _ ht)]
    rcases normalizeArguments resolve cwd ranks tail with e | kept <;> rfl

/-! ### The vector of a specification -/

/-- The solver selection of the approved command. -/
def solverSelection (execution : ExecutionSpec) : List Text :=
  if execution.driver = "foamRun".toList then
    ["-solver".toList, (mirroredSolver execution).getD "None".toList] else []

/-- The contract of a driver is its own. -/
theorem executionDriverContract_eq_ok {driver providerId : Text}
    {contract : ExecutionDriverContract}
    (h : executionDriverContract driver providerId = .ok contract) :
    contract.driver = driver ∧
      (contract ∈ driverContracts ∨ contract = directContract driver ∧
        ∀ c ∈ driverContracts, c.driver ≠ driver) := by
  unfold executionDriverContract at h
  split at h
  next c hc =>
    split_ifs at h with hdriver
    obtain rfl := Except.ok.inj h
    have hmem : c ∈ driverContracts.filter _ := hc ▸ List.mem_singleton_self c
    exact ⟨not_not.1 hdriver, .inl (List.mem_filter.1 hmem).1⟩
  next => cases h
  next =>
    split at h
    next c hc =>
      obtain rfl := Except.ok.inj h
      have hmem : c ∈ driverContracts.filter _ := hc ▸ List.mem_singleton_self c
      exact ⟨by simpa using (List.mem_filter.1 hmem).2, .inl (List.mem_filter.1 hmem).1⟩
    next => cases h
    next hnone =>
      obtain rfl := Except.ok.inj h
      refine ⟨rfl, .inr ⟨rfl, fun c hc hdriver => ?_⟩⟩
      exact absurd (List.filter_eq_nil_iff.1 hnone c hc) (by simpa using hdriver)

/-- A name of a valid scope is not blank. -/
theorem strippedScopeName_eq_none {scope : ExecutionScope} (hvalid : validScope scope)
    (h : strippedScopeName scope = none) : scope.name = none := by
  rcases hname : scope.name with _ | name
  · rfl
  · have hregion : isRegionName name = true := by
      simp only [validScope, hname, Option.all_some, Bool.and_eq_true] at hvalid
      exact hvalid.1.1.1.2
    rcases name with _ | ⟨c, cs⟩
    · cases hregion
    · have hletter : isAsciiLetter c = true := (Bool.and_eq_true_iff.1 hregion).1
      have hword : isSpace c = false := isSpace_of_isAsciiWord (by simp [isAsciiWord, hletter])
      have hblank : strip (c :: cs) = [] := by
        simpa [strippedScopeName, hname, Option.filter] using h
      have hspace := stripBy_eq_nil.1 hblank c List.mem_cons_self
      rw [hword] at hspace
      cases hspace

/-- The scope of `foamRun`: the root, bound to a solver. -/
theorem foamRun_scopes {scopes : List ExecutionScope} {contract : ExecutionDriverContract}
    (hcontract : contract.minScopes = 1 ∧ contract.maxScopes = some 1 ∧
      contract.scopeNamespace = .rootOnly ∧ contract.scopeSolverBinding = .required)
    (hvalid : ∀ scope ∈ scopes, validScope scope) (h : contractFailures contract scopes = []) :
    ∃ solver provider, scopes = [⟨none, some solver, provider⟩] ∧ solver ≠ [] ∧
      isClassName solver := by
  obtain ⟨hmin, hmax, hnamespace, hbinding⟩ := hcontract
  simp only [contractFailures, hmin, hmax, hnamespace, List.append_eq_nil_iff] at h
  obtain ⟨⟨⟨⟨hfew, hmany⟩, hroot⟩, -⟩, hscopes⟩ := h
  have hlength : scopes.length = 1 := by
    have h₁ : ¬ scopes.length < 1 := fun hlt => by simp [hlt] at hfew
    have h₂ : ¬ 1 < scopes.length := fun hlt => by simp [hlt] at hmany
    omega
  obtain ⟨scope, rfl⟩ := List.length_eq_one_iff.1 hlength
  have hscope := hvalid scope List.mem_cons_self
  have hname : scope.name = none := by
    refine strippedScopeName_eq_none hscope ?_
    by_contra hsome
    simp [Option.isSome_iff_ne_none, hsome] at hroot
  have hsolver : scope.solverModule.any (fun x => !decide (x = [])) = true := by
    simp [scopeFailures, hbinding] at hscopes
    exact hscopes.2.1
  obtain ⟨name, solverModule, provider⟩ := scope
  obtain ⟨solver, rfl, hne⟩ : ∃ solver, solverModule = some solver ∧ solver ≠ [] := by
    simpa [Option.any_eq_true] using hsolver
  dsimp only at hname
  subst hname
  simp only [validScope, Option.all_some, Bool.and_eq_true] at hscope
  exact ⟨solver, provider, rfl, hne, hscope.1.1.2.2⟩

/-- The runtime arguments of `foamRun`. -/
theorem render_solverSelection {solver : Text} {provider : Option Text} (hne : solver ≠ []) :
    ["-solver".toList, scopeSolverToken].mapM
      (renderArgument (some ⟨none, some solver, provider⟩)) = .ok ["-solver".toList, solver] := by
  have hflag : renderArgument (some ⟨none, some solver, provider⟩) "-solver".toList =
      .ok "-solver".toList := if_neg (by decide)
  have hsolver : renderArgument (some ⟨none, some solver, provider⟩) scopeSolverToken =
      .ok solver := by
    rw [renderArgument, if_pos rfl, Option.bind_some, Option.filter_some, if_pos (by simpa using hne)]
  rw [List.mapM_cons, hflag, List.mapM_cons, hsolver]
  rfl

/-- A class name is not a flag. -/
theorem not_owned_of_isClassName {solver : Text} (h : isClassName solver) :
    ¬ Owned ranks solver := by
  rintro (rfl | ⟨rfl, -⟩)
  · revert h
    decide
  · revert h
    decide

/-- The arguments of a vector: the solver selection of the approved command, then the approved
arguments. -/
theorem runtimeArguments_eq_ok (ranks : ℕ) {arguments : List Text} (hvalid : ValidatedSpec execution)
    (h : runtimeArguments execution = .ok arguments) :
    arguments = solverSelection execution ++ execution.arguments ∧
      ∀ token ∈ solverSelection execution, ¬ Owned ranks token := by
  unfold runtimeArguments at h
  split at h
  · cases h
  rename_i contract hcontract
  split_ifs at h with hfailures
  rw [not_not] at hfailures
  obtain ⟨hdriver, hmem | ⟨rfl, hother⟩⟩ := executionDriverContract_eq_ok hcontract
  · rcases List.mem_cons.1 hmem with rfl | hmem
    · obtain ⟨solver, provider, hscopes, hne, hclass⟩ :=
        foamRun_scopes ⟨rfl, rfl, rfl, rfl⟩ hvalid.scope hfailures
      have hfoam : execution.driver = "foamRun".toList := by
        rw [← hdriver]
      have hselection : solverSelection execution = ["-solver".toList, solver] := by
        rw [solverSelection, if_pos hfoam, mirroredSolver, hscopes]
        rfl
      rw [hselection]
      refine ⟨?_, fun token htoken => ?_⟩
      · dsimp only at h
        rw [hscopes, List.head?_cons, render_solverSelection hne] at h
        exact (Except.ok.inj h).symm
      · rcases List.mem_cons.1 htoken with rfl | htoken
        · rintro (heq | ⟨heq, -⟩)
          · revert heq
            decide
          · revert heq
            decide
        · rw [List.mem_singleton.1 htoken]
          exact not_owned_of_isClassName hclass
    · obtain rfl := List.mem_singleton.1 hmem
      have hselection : solverSelection execution = [] := by
        rw [solverSelection, if_neg]
        rw [← hdriver]
        decide
      rw [hselection]
      exact ⟨(Except.ok.inj h).symm, nofun⟩
  · have hselection : solverSelection execution = [] := by
      rw [solverSelection, if_neg]
      exact fun heq => hother _ List.mem_cons_self heq.symm
    rw [hselection]
    exact ⟨(Except.ok.inj h).symm, nofun⟩

/-- The flag of a parallel launch. -/
def launchFlags (parallel : ParallelExecution) : List Text :=
  if parallel.mode = .localMpi then ["-parallel".toList] else []

theorem executionVector_eq_ok {command : List Text} (hvalid : ValidatedSpec execution)
    (h : executionVector parallel execution = .ok command) :
    command = execution.driver :: (solverSelection execution ++ execution.arguments ++
      launchFlags (parallel execution.parallel)) := by
  unfold executionVector at h
  split at h
  · cases h
  rename_i arguments harguments
  obtain ⟨rfl, -⟩ := runtimeArguments_eq_ok 0 hvalid harguments
  split at h
  next hmode =>
    rw [launchFlags, if_pos hmode]
    exact (Except.ok.inj h).symm
  next hmode =>
    rw [launchFlags, if_neg (by rw [hmode]; nofun), List.append_nil]
    unfold nativeCommandVector at h
    split at h
    · cases h
    split at h
    · cases h
    split at h
    · cases h
    · exact (Except.ok.inj h).symm

/-- The controller's flag is struck out. -/
theorem normalizeArguments_launchFlags (parallel : ParallelExecution) :
    normalizeArguments resolve cwd parallel.ranks (launchFlags parallel) = .ok [] := by
  unfold launchFlags
  split_ifs with hmode
  · have hranks := parallel.mpi_ranks hmode
    rw [normalizeArguments.eq_def]
    dsimp only
    rw [if_neg (by decide), if_pos ⟨rfl, hranks⟩]
    rfl
  · rfl

/-! ### The gate -/

/-- The arguments of the specification are its own. -/
def Runnable (parallel : Document → ParallelExecution) (execution : ExecutionSpec) : Prop :=
  ∀ argument ∈ execution.arguments, ¬ Owned (parallel execution.parallel).ranks argument

namespace ExecutionContext

variable {context : ExecutionContext}

/-- The approval is in force: for the plan, the files, the place and the limits of the call. -/
structure InForce (context : ExecutionContext) (resolve : Text → Text) (cwd : Text)
    (timeout ranks : ℕ) : Prop where
  phase : context.phase = "runtime".toList
  plan : context.approval.checkPlan context.plan = .ok ()
  files : context.approval.checkRepairFiles context.caseSeal = .ok ()
  integrity : context.workspace.verifySeal context.caseSeal context.plan = .ok ()
  cwd : cwd = resolve context.caseDir
  wallSeconds : timeout ≤ context.approval.resourceLimits.wallSeconds
  maxRanks : ranks ≤ context.approval.resourceLimits.maxRanks

theorem validate_eq_ok {command : List Text} :
    context.validate parallel resolve command cwd timeout ranks = .ok () ↔
      context.InForce resolve cwd timeout ranks ∧
      ranks = approvedRanks parallel context.approval.execution ∧
      context.matchCommand resolve command cwd ranks = .ok () := by
  unfold validate
  constructor
  · intro h
    split at h
    · cases h
    rename_i hphase
    split at h
    · cases h
    rename_i hplan
    split at h
    · cases h
    rename_i hfiles
    split at h
    · cases h
    rename_i hintegrity
    dsimp only at h
    split_ifs at h with hcwd hlimits hranks
    rw [not_or, not_lt, not_lt] at hlimits
    exact ⟨⟨not_not.1 hphase, hplan, hfiles, hintegrity, not_not.1 hcwd, hlimits.1, hlimits.2⟩,
      not_not.1 hranks, h⟩
  · rintro ⟨hforce, hranks, hmatch⟩
    rw [if_neg (not_not.2 hforce.phase), hforce.plan, hforce.files, hforce.integrity]
    dsimp only
    rw [if_neg (not_not.2 hforce.cwd), if_neg, if_neg (not_not.2 hranks), hmatch]
    rw [not_or, not_lt, not_lt]
    exact ⟨hforce.wallSeconds, hforce.maxRanks⟩

/-- The plan of an approval in force is the approved one. -/
theorem approved_execution (h : context.approval.checkPlan context.plan = .ok ()) :
    context.approval.execution = executionDocument context.plan := by
  unfold ExecutionApproval.checkPlan at h
  split_ifs at h with hinconsistent hchanged
  rw [not_not] at hinconsistent hchanged
  exact Sha256.mk.inj (hinconsistent.trans hchanged.symm)

/-- The vector of a specification matches exactly when its own arguments are kept. -/
theorem matchCommand_executionVector {command : List Text} (hvalid : ValidatedSpec execution)
    (happroved : context.approval.execution = .spec execution)
    (h : executionVector parallel execution = .ok command) :
    context.matchCommand resolve command cwd (parallel execution.parallel).ranks = .ok () ↔
      Runnable parallel execution := by
  have hselection : ∀ token ∈ solverSelection execution,
      ¬ Owned (parallel execution.parallel).ranks token := by
    unfold executionVector at h
    split at h
    · cases h
    · exact (runtimeArguments_eq_ok _ hvalid ‹_›).2
  have hexpected : approvedCommand context.approval.execution =
      execution.driver :: (solverSelection execution ++ execution.arguments) := by
    rw [happroved]
    rfl
  rw [executionVector_eq_ok hvalid h]
  unfold matchCommand
  dsimp only
  rw [hexpected]
  constructor
  · intro hmatch argument hargument
    split at hmatch
    · cases hmatch
    · rename_i normalized hnormalized
      split_ifs at hmatch with hdiffers
      rw [not_not] at hdiffers
      have hkept := (stripped_of_normalizeArguments hnormalized).not_owned
      rw [(List.cons.inj hdiffers).2] at hkept
      exact hkept argument (List.mem_append_right _ hargument)
  · intro hrunnable
    have hown : ∀ token ∈ solverSelection execution ++ execution.arguments,
        ¬ Owned (parallel execution.parallel).ranks token := by
      intro token htoken
      exact (List.mem_append.1 htoken).elim (hselection token) (hrunnable token)
    rw [normalizeArguments_append hown, normalizeArguments_launchFlags]
    simp [Except.map]

end ExecutionContext

/-- What the gate accepts is the approved command, with the controller's tokens struck out. -/
theorem stripped_of_validate {context : ExecutionContext} {command : List Text}
    (h : context.validate parallel resolve command cwd timeout ranks = .ok ()) :
    ∃ first rest kept, command = first :: rest ∧ Stripped resolve cwd ranks rest kept ∧
      first :: kept = approvedCommand context.approval.execution := by
  obtain ⟨-, -, hmatch⟩ := ExecutionContext.validate_eq_ok.1 h
  unfold ExecutionContext.matchCommand at hmatch
  split at hmatch
  · cases hmatch
  split at hmatch
  · cases hmatch
  rename_i first rest _ kept hkept
  split_ifs at hmatch with hdiffers
  exact ⟨first, rest, kept, rfl, stripped_of_normalizeArguments hkept, not_not.1 hdiffers⟩

/-- A process that solves was let through by one of the contexts of the runner. -/
theorem SafeRunner.solve_of_run {runner : SafeRunner} {command : List Text} {dir : Option Text}
    {spawn : Spawn} (h : runner.run parallel host command dir timeout = .ok spawn)
    (heffect : spawn.effect = .registered .solve) :
    spawn.command = command ∧ ∃ cwd, spawn.cwd = some cwd ∧
      ((∃ context, runner.executionContext = some context ∧
        context.validate parallel host.resolve command cwd timeout runner.mpiRanks = .ok ()) ∨
      runner.executionContext = none ∧ ∃ context, runner.validationContext = some context ∧
        command = context.expectedCommand ∧ runner.mpiRanks = 1) := by
  unfold SafeRunner.run at h
  split at h
  · cases h
  rename_i exe arguments
  dsimp only at h
  iterate 7
    split at h
    · cases h
  rename_i hauthorized
  iterate 4
    split at h
    · cases h
  obtain rfl := Except.ok.inj h
  refine ⟨rfl, ?_⟩
  dsimp only at heffect ⊢
  rw [heffect] at hauthorized
  unfold SafeRunner.authorize at hauthorized
  dsimp only at hauthorized
  split at hauthorized
  · cases hauthorized
  rename_i cwd hcwd
  refine ⟨cwd, hcwd, ?_⟩
  split at hauthorized
  next hcontext =>
    exact .inl ⟨_, hcontext, Traversal.mapError_eq_ok.1 hauthorized⟩
  next context hnone hcontext =>
    refine .inr ⟨hnone, context, hcontext, ?_⟩
    have hvalid := Traversal.mapError_eq_ok.1 hauthorized
    unfold ValidationExecutionContext.validate at hvalid
    dsimp only at hvalid
    split_ifs at hvalid with _ _ hranks _ hcommand
    exact ⟨not_not.1 hcommand, not_not.1 hranks⟩
  next => cases hauthorized

/-- **The launcher and the gate.** The vector that `run_execution` builds from the specification of
a plan passes exactly when the approval is in force and the arguments of the specification name
neither the case nor, in a parallel run, the parallel flag. What passes is the approved driver,
solver selection and arguments, once the overrides of the approved case and the parallel flag are
struck out. A process that solves is created for such a command, or for the exact command of a
serial shadow validation. -/
theorem launch_gate (parallel : Document → ParallelExecution) (host : NativeHost) :
    (∀ (context : ExecutionContext) (execution : ExecutionSpec) (command : List Text) (cwd : Text)
      (timeout : ℕ), context.plan.execution = some execution → ValidatedSpec execution →
      executionVector parallel execution = .ok command →
      (context.validate parallel host.resolve command cwd timeout
          (parallel execution.parallel).ranks = .ok () ↔
        context.InForce host.resolve cwd timeout (parallel execution.parallel).ranks ∧
          Runnable parallel execution)) ∧
    (∀ (context : ExecutionContext) (command : List Text) (cwd : Text) (timeout ranks : ℕ),
      context.validate parallel host.resolve command cwd timeout ranks = .ok () →
      ∃ first rest kept, command = first :: rest ∧ Stripped host.resolve cwd ranks rest kept ∧
        first :: kept = approvedCommand context.approval.execution) ∧
    ∀ (runner : SafeRunner) (command : List Text) (dir : Option Text) (timeout : ℕ)
      (spawn : Spawn), runner.run parallel host command dir timeout = .ok spawn →
      spawn.effect = .registered .solve →
      spawn.command = command ∧ ∃ cwd, spawn.cwd = some cwd ∧
        ((∃ context, runner.executionContext = some context ∧
          context.validate parallel host.resolve command cwd timeout runner.mpiRanks = .ok ()) ∨
        runner.executionContext = none ∧ ∃ context, runner.validationContext = some context ∧
          command = context.expectedCommand ∧ runner.mpiRanks = 1) := by
  refine ⟨fun context execution command cwd timeout hplan hvalid hvector => ?_,
    fun context command cwd timeout ranks h => stripped_of_validate h,
    fun runner command dir timeout spawn h heffect => SafeRunner.solve_of_run h heffect⟩
  rw [ExecutionContext.validate_eq_ok]
  constructor
  · rintro ⟨hforce, -, hmatch⟩
    have happroved := ExecutionContext.approved_execution hforce.plan
    rw [executionDocument, hplan] at happroved
    exact ⟨hforce, (ExecutionContext.matchCommand_executionVector hvalid happroved hvector).1 hmatch⟩
  · rintro ⟨hforce, hrunnable⟩
    have happroved := ExecutionContext.approved_execution hforce.plan
    rw [executionDocument, hplan] at happroved
    refine ⟨hforce, by rw [happroved]; rfl, ?_⟩
    exact (ExecutionContext.matchCommand_executionVector hvalid happroved hvector).2 hrunnable

/-- A specification of two ranks with the given arguments. -/
def twoRanks (arguments : List Text) : ExecutionSpec where
  driver := "foamRun".toList
  driverProviderId := "execution.foamRun".toList
  scopes := [⟨none, some "incompressibleFluid".toList, some "p".toList⟩]
  arguments := arguments
  parallel := "two".toList

/-- The document of `twoRanks` stands for two local ranks. -/
def localRanks (document : Document) : ParallelExecution :=
  if document = "two".toList then { mode := .localMpi, ranks := 2 } else {}

/-- The approval of a plan on a small case. -/
def approvedContext (execution : ExecutionSpec) : ExecutionContext :=
  let plan := { planWith [] with execution := some execution }
  let workspace := caseWith "deltaT 2e-3;\n"
  { approval := .issue plan (sealOf workspace plan) none
    plan := plan
    caseSeal := sealOf workspace plan
    workspace := workspace
    caseDir := "/case".toList }

theorem approvedContext_inForce :
    ∀ arguments ∈ [[], ["-parallel".toList]],
      (approvedContext (twoRanks arguments)).InForce id "/case".toList 60 2 := by
  have hforce : ∀ arguments ∈ [[], ["-parallel".toList]],
      let context := approvedContext (twoRanks arguments)
      context.approval.checkPlan context.plan = .ok () ∧
        context.approval.checkRepairFiles context.caseSeal = .ok () ∧
        context.workspace.verifySeal context.caseSeal context.plan = .ok () := by
    decide +kernel
  intro arguments harguments
  obtain ⟨hplan, hfiles, hintegrity⟩ := hforce arguments harguments
  exact ⟨rfl, hplan, hfiles, hintegrity, rfl, (by decide : 60 ≤ 3600), (by decide : 2 ≤ 8)⟩

/-- A parallel specification without arguments passes. -/
theorem launch_gate_twoRanks :
    (approvedContext (twoRanks [])).validate localRanks id
      ["foamRun".toList, "-solver".toList, "incompressibleFluid".toList, "-parallel".toList]
      "/case".toList 60 2 = .ok () := by
  let host : NativeHost := ⟨id, id, some, [], fun _ => none, some, true, true⟩
  have hvalid : ValidatedSpec (twoRanks []) :=
    ⟨by decide, by decide, by decide, by decide, by decide, nofun⟩
  exact ((launch_gate localRanks host).1 _ (twoRanks []) _ _ 60 rfl hvalid (by decide +kernel)).2
    ⟨approvedContext_inForce [] List.mem_cons_self, nofun⟩

/-- An approved parallel specification whose arguments hold the flag is refused: the gate strikes
out both flags of the launch, and none of the approval. -/
theorem parallel_argument_refused :
    ∃ execution command, ValidatedSpec execution ∧
      executionVector localRanks execution = .ok command ∧
      (approvedContext execution).InForce id "/case".toList 60 2 ∧
      (approvedContext execution).validate localRanks id command "/case".toList 60 2 =
        .error .argv := by
  refine ⟨twoRanks ["-parallel".toList], _, ?_, rfl, approvedContext_inForce _ (by simp),
    by decide +kernel⟩
  refine ⟨by decide, by decide, by decide, by decide, by decide, fun argument hargument => ?_⟩
  obtain rfl := List.mem_singleton.1 hargument
  have hlength : "-parallel".toList.length = 9 := rfl
  have hplain : "-parallel".toList.all (fun c => c ≠ '\x00' ∧ c ≠ '\n' ∧ c ≠ '\r') = true := by
    decide
  exact ⟨by decide, by omega, fun c hc => of_decide_eq_true (List.all_eq_true.1 hplain c hc)⟩

end Runtime
end OpenFoamAgent
