/-
# Launching the main calculation

The execution driver contracts of `tools/execution_contracts.py`, the argument
vector that `run_execution` of `tools/openfoam.py` builds from a specification,
and the gate it has to pass: `ExecutionContext.validate` and
`ValidationExecutionContext.validate` of `tools/execution_policy.py`, and
`SafeRunner.run` up to the creation of the process.

A specification holds its `parallel` part as a document, so the value of such a
document is a parameter. What the file system and the installation answer is a
`NativeHost`.
-/
import OpenFoamAgent.Contracts.Approval
import OpenFoamAgent.Engineering.ExecutionScopes

namespace OpenFoamAgent
namespace Runtime

open Python Schemas Workspace Contracts Engineering

/-! ### Specifications -/

/-- `mode` of `ParallelExecution`. -/
inductive ParallelMode where
  | serial
  | localMpi
  deriving DecidableEq

/-- `ParallelExecution`, as far as a launch reads it, with what `validate_mode` checks. -/
structure ParallelExecution where
  mode : ParallelMode := .serial
  ranks : ℕ := 1
  launcher : Text := "mpirun".toList
  serial_ranks : mode = .serial → ranks = 1 := by decide
  mpi_ranks : mode = .localMpi → 2 ≤ ranks := by decide

/-- Local MPI on `n + 2` ranks. -/
def ParallelExecution.onRanks (n : ℕ) : ParallelExecution where
  mode := .localMpi
  ranks := n + 2
  serial_ranks := nofun
  mpi_ranks _ := Nat.le_add_left 2 n

/-- The checks of `OpenFOAMExecutionSpec`. -/
structure ValidatedSpec (execution : ExecutionSpec) : Prop where
  driver : isWord isAsciiLetter (fun c => isAsciiWord c || c ∈ ['.', '+', '-']) execution.driver
  scopes : execution.scopes ≠ [] ∧ execution.scopes.length ≤ 64
  scope : ∀ scope ∈ execution.scopes, validScope scope
  identities : (execution.scopes.map (·.name)).Nodup
  count : execution.arguments.length ≤ 24
  argument : ∀ argument ∈ execution.arguments, argument ≠ [] ∧ argument.length ≤ 1000 ∧
    ∀ c ∈ argument, c ≠ '\x00' ∧ c ≠ '\n' ∧ c ≠ '\r'

/-- `solver_module` of a specification: the mirror of a single root scope. -/
def mirroredSolver (execution : ExecutionSpec) : Option Text :=
  match execution.scopes with
  | [⟨none, solverModule, _⟩] => solverModule
  | _ => none

/-! ### Driver contracts -/

/-- `scope_namespace` -/
inductive ScopeNamespacePolicy where
  | rootOnly | namedOnly | any
  deriving DecidableEq

/-- `scope_solver_binding` -/
inductive ScopeSolverBinding where
  | required | optional | forbidden
  deriving DecidableEq

/-- `ExecutionDriverContract`. -/
structure ExecutionDriverContract where
  driver : Text
  providerIds : List Text
  minScopes : ℕ
  maxScopes : Option ℕ
  scopeNamespace : ScopeNamespacePolicy
  scopeSolverBinding : ScopeSolverBinding
  runtimeArguments : List Text
  deriving DecidableEq

/-- `{scope_solver}` -/
def scopeSolverToken : Text := "\x7bscope_solver\x7d".toList

/-- `drivers` of the registry. -/
def driverContracts : List ExecutionDriverContract := [
  { driver := "foamRun".toList,
    providerIds := ["execution.foamRun".toList, "driver.foamRun".toList],
    minScopes := 1, maxScopes := some 1, scopeNamespace := .rootOnly,
    scopeSolverBinding := .required,
    runtimeArguments := ["-solver".toList, scopeSolverToken] },
  { driver := "foamMultiRun".toList,
    providerIds := ["execution.foamMultiRun".toList, "driver.foamMultiRun".toList],
    minScopes := 1, maxScopes := none, scopeNamespace := .namedOnly,
    scopeSolverBinding := .required, runtimeArguments := [] }]

/-- `default_direct_application` of the registry, for a driver. -/
def directContract (driver : Text) : ExecutionDriverContract where
  driver := driver
  providerIds := []
  minScopes := 1
  maxScopes := some 1
  scopeNamespace := .rootOnly
  scopeSolverBinding := .forbidden
  runtimeArguments := []

/-- The exceptions before a launch. -/
inductive LaunchError where
  /-- `Execution provider … maps to multiple contracts.`, and the same of a driver. -/
  | ambiguous
  /-- `Execution driver … disagrees with provider contract …` -/
  | disagreement
  /-- `Execution topology does not satisfy the selected driver contract.` -/
  | topology
  /-- `Execution contract requires a scope solver but none is bound.` -/
  | unboundSolver
  /-- `Unsafe OpenFOAM command identifier: …` -/
  | unsafeCommand
  | scope (e : ScopeError)
  /-- `Agent native commands cannot override Python-owned case/root paths.` -/
  | reservedArgument
  deriving DecidableEq

/-- `execution_driver_contract`. -/
def executionDriverContract (driver providerId : Text) :
    Except LaunchError ExecutionDriverContract :=
  match driverContracts.filter fun c => providerId ≠ [] ∧ providerId ∈ c.providerIds with
  | [contract] => if contract.driver ≠ driver then .error .disagreement else .ok contract
  | _ :: _ :: _ => .error .ambiguous
  | [] =>
    match driverContracts.filter fun c => c.driver = driver with
    | [contract] => .ok contract
    | _ :: _ :: _ => .error .ambiguous
    | [] => .ok (directContract driver)

/-- `_scope_name`. -/
def strippedScopeName (scope : ExecutionScope) : Option Text :=
  (scope.name.map strip).filter (· ≠ [])

/-- The failures of `validate_execution_contract`. -/
inductive ContractFailure where
  | tooFewScopes | tooManyScopes | rootScopeOnly | namedScopesOnly
  | incompletePair | requiresSolver | forbidsSolver
  deriving DecidableEq

/-- The failures of one scope. -/
def scopeFailures (contract : ExecutionDriverContract) (scope : ExecutionScope) :
    List ContractFailure :=
  let solver := scope.solverModule.any (· ≠ [])
  let provider := scope.solverProviderId.any (· ≠ [])
  (if (solver || provider) && !(solver && provider) then [.incompletePair] else []) ++
  (if contract.scopeSolverBinding = .required && !(solver && provider) then [.requiresSolver]
    else []) ++
  if contract.scopeSolverBinding = .forbidden && (solver || provider) then [.forbidsSolver] else []

/-- `validate_execution_contract`. -/
def contractFailures (contract : ExecutionDriverContract) (scopes : List ExecutionScope) :
    List ContractFailure :=
  let names := scopes.map strippedScopeName
  (if scopes.length < contract.minScopes then [.tooFewScopes] else []) ++
  (if contract.maxScopes.any (· < scopes.length) then [.tooManyScopes] else []) ++
  (if contract.scopeNamespace = .rootOnly && names.any (·.isSome) then [.rootScopeOnly] else []) ++
  (if contract.scopeNamespace = .namedOnly && names.any (·.isNone) then [.namedScopesOnly]
    else []) ++
  scopes.flatMap (scopeFailures contract)

/-- `_render_argument`. -/
def renderArgument (scope : Option ExecutionScope) (token : Text) : Except LaunchError Text :=
  if token = scopeSolverToken then
    match (scope.bind (·.solverModule)).filter (· ≠ []) with
    | none => .error .unboundSolver
    | some solver => .ok solver
  else .ok token

/-- `runtime_arguments`. -/
def runtimeArguments (execution : ExecutionSpec) : Except LaunchError (List Text) :=
  match executionDriverContract execution.driver execution.driverProviderId with
  | .error e => .error e
  | .ok contract =>
    if contractFailures contract execution.scopes ≠ [] then .error .topology
    else (contract.runtimeArguments.mapM (renderArgument execution.scopes.head?)).map
      (· ++ execution.arguments)

/-- `run_native_command`, up to the call of the runner. -/
def nativeCommandVector (command : Text) (arguments : List Text) :
    Except LaunchError (List Text) :=
  if ¬ isWord isAsciiLetter (fun c => isAsciiWord c || c ∈ ['.', '+', '-']) command then
    .error .unsafeCommand
  else
    match nativeCommandRegion arguments with
    | .error e => .error (.scope e)
    | .ok _ =>
      if arguments.any fun a =>
          a ∈ ["-case".toList, "-root".toList, "-hostRoots".toList, "-roots".toList] then
        .error .reservedArgument
      else .ok (command :: arguments)

/-- `run_execution`, up to the call of the runner: the vector of `run` or of `run_mpi`. -/
def executionVector (parallel : Document → ParallelExecution) (execution : ExecutionSpec) :
    Except LaunchError (List Text) :=
  match runtimeArguments execution with
  | .error e => .error e
  | .ok arguments =>
    match (parallel execution.parallel).mode with
    | .localMpi => .ok (execution.driver :: arguments ++ ["-parallel".toList])
    | .serial => nativeCommandVector execution.driver arguments

/-! ### Execution contexts -/

/-- The exceptions of the execution contexts. -/
inductive ExecutionPolicyError where
  /-- `Calculation is only permitted in the runtime phase.` -/
  | phase
  | approval (e : ApprovalError)
  | integrity (e : SealError)
  /-- `Execution cwd differs from the approved sealed case.` -/
  | cwd
  /-- `Execution exceeds approved wall-time/rank limits.` -/
  | limits
  /-- `MPI rank count differs from approved execution.` -/
  | ranks
  /-- An empty command has no first word. -/
  | emptyCommand
  /-- `Case override differs from the approved cwd.` -/
  | caseOverride
  /-- `Actual argv differs from the user-approved execution specification.` -/
  | argv
  /-- `Validation execution cwd differs from the Python-owned shadow case.` -/
  | shadowCwd
  /-- `Validation execution must stay inside the bounded workspace.` -/
  | shadowWorkspace
  /-- `Shadow consumer validation is serial only.` -/
  | shadowRanks
  /-- `Validation execution exceeds the bounded validation wall time.` -/
  | shadowWallTime
  /-- `Validation execution argv differs from the Python-owned exact command.` -/
  | shadowArgv
  deriving DecidableEq

/-- `ExecutionContext`, with the workspace as it is when the context is consulted. -/
structure ExecutionContext where
  approval : ExecutionApproval
  plan : EngineeringPlan
  caseSeal : CaseSeal
  workspace : CaseWorkspace
  /-- `workspace.case_dir` -/
  caseDir : Text
  phase : Text := "runtime".toList

/-- The approved command: driver, solver selection and arguments. -/
def approvedCommand : ExecutionDocument → List Text
  | .spec execution =>
    execution.driver ::
      ((if execution.driver = "foamRun".toList then
        ["-solver".toList, (mirroredSolver execution).getD "None".toList] else []) ++
      execution.arguments)
  | .foamRun solverModule _ => ["foamRun".toList, "-solver".toList, solverModule]

/-- `parallel.get("ranks", 1)` of the approved document. -/
def approvedRanks (parallel : Document → ParallelExecution) : ExecutionDocument → ℕ
  | .spec execution => (parallel execution.parallel).ranks
  | .foamRun _ _ => 1

/-- The loop over the arguments of a command: overrides of the case that name the approved one are
dropped, and the flag of a parallel run. -/
def normalizeArguments (resolve : Text → Text) (cwd : Text) (ranks : ℕ) :
    List Text → Except ExecutionPolicyError (List Text)
  | [] => .ok []
  | token :: rest =>
    if token = "-case".toList then
      match rest with
      | [] => .error .caseOverride
      | value :: rest' =>
        if resolve value ≠ cwd then .error .caseOverride
        else normalizeArguments resolve cwd ranks rest'
    else if token = "-parallel".toList ∧ 1 < ranks then normalizeArguments resolve cwd ranks rest
    else (normalizeArguments resolve cwd ranks rest).map (token :: ·)

namespace ExecutionContext

variable (parallel : Document → ParallelExecution) (resolve : Text → Text)
  (context : ExecutionContext)

/-- The comparison of the command with the approved one. -/
def matchCommand (command : List Text) (cwd : Text) (ranks : ℕ) :
    Except ExecutionPolicyError Unit :=
  match command with
  | [] => .error .emptyCommand
  | first :: rest =>
    match normalizeArguments resolve cwd ranks rest with
    | .error e => .error e
    | .ok normalized =>
      if first :: normalized ≠ approvedCommand context.approval.execution then .error .argv
      else .ok ()

/-- `ExecutionContext.validate`. -/
def validate (command : List Text) (cwd : Text) (timeout ranks : ℕ) :
    Except ExecutionPolicyError Unit :=
  if context.phase ≠ "runtime".toList then .error .phase
  else
    match context.approval.checkPlan context.plan with
    | .error e => .error (.approval e)
    | .ok () =>
      match context.approval.checkRepairFiles context.caseSeal with
      | .error e => .error (.approval e)
      | .ok () =>
        match context.workspace.verifySeal context.caseSeal context.plan with
        | .error e => .error (.integrity e)
        | .ok () =>
          let limits := context.approval.resourceLimits
          if cwd ≠ resolve context.caseDir then .error .cwd
          else if limits.wallSeconds < timeout ∨ limits.maxRanks < ranks then .error .limits
          else if ranks ≠ approvedRanks parallel context.approval.execution then .error .ranks
          else context.matchCommand resolve command cwd ranks

end ExecutionContext

/-- `_is_within`, of resolved paths. -/
def isWithin (path root : Text) : Bool :=
  path == root || root == ['/'] || (root ++ ['/']).isPrefixOf path

/-- `ValidationExecutionContext`. -/
structure ValidationExecutionContext where
  expectedCommand : List Text
  caseDir : Text
  workspaceRoot : Text
  maxWallSeconds : ℕ := 60

/-- `ValidationExecutionContext.validate`. -/
def ValidationExecutionContext.validate (resolve : Text → Text)
    (context : ValidationExecutionContext) (command : List Text) (cwd : Text)
    (timeout ranks : ℕ) : Except ExecutionPolicyError Unit :=
  let expectedDir := resolve context.caseDir
  let root := resolve context.workspaceRoot
  if resolve cwd ≠ expectedDir then .error .shadowCwd
  else if expectedDir = root ∨ ¬ isWithin expectedDir root then .error .shadowWorkspace
  else if ranks ≠ 1 then .error .shadowRanks
  else if context.maxWallSeconds < timeout then .error .shadowWallTime
  else if command ≠ context.expectedCommand then .error .shadowArgv
  else .ok ()

/-! ### The runner -/

/-- What the system answers the runner. -/
structure NativeHost where
  /-- `Path(x).resolve()` -/
  resolve : Text → Text
  /-- `Path(x).expanduser()` -/
  expandUser : Text → Text
  /-- `resolve_trusted_executable`; `none` where it raises. -/
  trustedExecutable : Text → Option Text
  /-- The executables of the installation that are drivers or solver applications. -/
  solverExecutables : List Text
  /-- `numberOfSubdomains` of the case's `decomposeParDict`, if it can be read. -/
  subdomains : Text → Option ℕ
  /-- `_resolve_mpi_launcher`; `none` where it raises. -/
  trustedLauncher : Text → Option Text
  /-- The operating system can limit the resources as requested. -/
  limitsSupported : Bool
  /-- The checks under the workspace lock: the ledger, the budgets and the quotas. -/
  withinBudgets : Bool

/-- What a command does, to the policy. -/
inductive CommandEffect where
  | registered (effect : NativeEffect)
  | write
  deriving DecidableEq

/-- `command_effect`. -/
def commandEffect (host : NativeHost) (command : Text) (arguments : List Text) : CommandEffect :=
  if arguments ≠ [] ∧ ∀ x ∈ arguments,
      x ∈ ["-help".toList, "-help-full".toList, "--help".toList, "-version".toList] then
    .registered .query
  else if command = "foamListTimes".toList ∧ "-rm".toList ∈ arguments then .registered .destructive
  else if command = "decomposePar".toList ∧ "-force".toList ∈ arguments then
    .registered .destructive
  else if command = "foamDictionary".toList ∧
      ∃ x ∈ arguments, x ∈ ["-set".toList, "-remove".toList, "-add".toList] then .write
  else
    match registeredContracts.find? (·.command = command) with
    | some contract => .registered contract.effect
    | none => if command ∈ host.solverExecutables then .registered .solve else .registered .unknown

/-- The exceptions of `SafeRunner.run` before a process is created. -/
inductive RunError where
  | emptyCommand | timeout | executableName | notAllowlisted | cwd | argument | executable
  | effect | solveWithoutCase
  | policy (e : ExecutionPolicyError)
  /-- `Main calculation requires explicit runtime approval; …` -/
  | solveWithoutApproval
  | reconstruction | decomposition | launcher | platform | noWorkspace | budget
  deriving DecidableEq

/-- A `SafeRunner`. -/
structure SafeRunner where
  allowedCommands : List Text
  maxTimeout : ℕ := 86400
  workspaceRoot : Option Text
  /-- `resource_limits.max_ranks` -/
  maxRanks : ℕ := 8
  executionContext : Option ExecutionContext := none
  validationContext : Option ValidationExecutionContext := none
  mpiRanks : ℕ := 1
  mpiLauncher : Option Text := none

/-- A process that is created. -/
structure Spawn where
  /-- The vector of the process. -/
  actual : List Text
  /-- The vector `run` was called with. -/
  command : List Text
  effect : CommandEffect
  cwd : Option Text
  ranks : ℕ

namespace SafeRunner

variable (parallel : Document → ParallelExecution) (host : NativeHost) (runner : SafeRunner)

/-- The flags `_validate_arguments` forbids. -/
def forbiddenFlags : List Text :=
  ["-root".toList, "-roots".toList, "-hostRoots".toList, "-lib".toList, "-libs".toList,
    "--host".toList, "-host".toList, "-hostfile".toList]

/-- The first loop of `_validate_arguments`. -/
def acceptsFlags (cwd : Option Text) : List Text → Bool
  | [] => true
  | token :: rest =>
    !(token ∈ forbiddenFlags ||
      ("-case".toList :: forbiddenFlags).any fun flag => (flag ++ ['=']).isPrefixOf token) &&
    (token != "-case".toList || rest.head?.any fun value => cwd == some (host.resolve value)) &&
    (token != "-parallel".toList || runner.mpiLauncher.isSome) &&
    acceptsFlags cwd rest

/-- The second loop of `_validate_arguments`. -/
def acceptsArgument (cwd : Option Text) (raw : Text) : Bool :=
  raw != [] && raw.length ≤ 1000 && raw.all (fun c => c ∉ ['\x00', '\n', '\r']) &&
  (raw.splitOn '/').all (· != "..".toList) &&
  (raw.head? != some '/' ||
    (runner.workspaceRoot.or cwd).any fun root => isWithin (host.resolve raw) root)

/-- `_validate_arguments`. -/
def acceptsArguments (cwd : Option Text) (arguments : List Text) : Bool :=
  runner.acceptsFlags host cwd arguments && arguments.all (runner.acceptsArgument host cwd)

/-- The authorization of an effect. -/
def authorize (command : List Text) (cwd : Option Text) (timeout : ℕ) (effect : CommandEffect) :
    Except RunError Unit :=
  match effect with
  | .registered .unknown | .registered .destructive => .error .effect
  | .registered .solve =>
    match cwd with
    | none => .error .solveWithoutCase
    | some cwd =>
      match runner.executionContext, runner.validationContext with
      | some context, _ =>
        (context.validate parallel host.resolve command cwd timeout runner.mpiRanks).mapError .policy
      | none, some context =>
        (context.validate host.resolve command cwd timeout runner.mpiRanks).mapError .policy
      | none, none => .error .solveWithoutApproval
  | .registered .reconstruction =>
    if runner.executionContext.isNone then .error .reconstruction else .ok ()
  | .registered .decomposition =>
    match cwd with
    | none => .error .decomposition
    | some cwd =>
      if (host.subdomains cwd).any fun n => 1 ≤ n && n ≤ runner.maxRanks then .ok ()
      else .error .decomposition
  | _ => .ok ()

/-- The vector of the process, behind the launcher of a parallel run. -/
def actualCommand (executable : Text) (arguments : List Text) : Except RunError (List Text) :=
  match runner.mpiLauncher with
  | none => .ok (executable :: arguments)
  | some name =>
    match host.trustedLauncher name with
    | none => .error .launcher
    | some launcher =>
      .ok (launcher :: "-np".toList :: (Nat.repr runner.mpiRanks).toList :: executable :: arguments)

/-- `run`, up to the creation of the process. -/
def run (command : List Text) (cwd : Option Text) (timeout : ℕ) : Except RunError Spawn :=
  match command with
  | [] => .error .emptyCommand
  | exe :: arguments =>
    if timeout = 0 ∨ runner.maxTimeout < timeout then .error .timeout
    else if exe = [] ∨ exe = ['.'] ∨ '/' ∈ exe then .error .executableName
    else if exe ∉ runner.allowedCommands then .error .notAllowlisted
    else
      let resolvedCwd := cwd.map fun c => host.resolve (host.expandUser c)
      if resolvedCwd.any fun c => runner.workspaceRoot.any fun root => !isWithin c root then
        .error .cwd
      else if !runner.acceptsArguments host resolvedCwd arguments then .error .argument
      else
        match host.trustedExecutable exe with
        | none => .error .executable
        | some executable =>
          let effect := commandEffect host exe arguments
          match runner.authorize parallel host command resolvedCwd timeout effect with
          | .error e => .error e
          | .ok () =>
            match runner.actualCommand host executable arguments with
            | .error e => .error e
            | .ok actual =>
              if !host.limitsSupported then .error .platform
              else if (runner.workspaceRoot.or resolvedCwd).isNone then .error .noWorkspace
              else if !host.withinBudgets then .error .budget
              else .ok ⟨actual, command, effect, resolvedCwd, runner.mpiRanks⟩

end SafeRunner
end Runtime
end OpenFoamAgent
