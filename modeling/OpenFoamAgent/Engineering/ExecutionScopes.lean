/-
# Execution scopes

`contracts/execution_scopes.py`: the scopes a plan declares, the native commands
bound to them, and the consumers a case edit calls for. The scopes of an
execution specification were checked with the plan; those of region layouts and
of a plan without either are checked here.
-/
import OpenFoamAgent.Engineering.Controller
import OpenFoamAgent.Engineering.NativeContracts

namespace OpenFoamAgent
namespace Engineering

open Python Schemas Workspace

/-! ### Scopes -/

/-- The validation of an `ExecutionScope`. -/
def validScope (scope : ExecutionScope) : Bool :=
  scope.name.all (fun name => lengthIn 0 120 name && isRegionName name) &&
    scope.solverModule.all (fun m => lengthIn 0 120 m && isClassName m) &&
    scope.solverProviderId.all (lengthIn 0 240) &&
    scope.solverModule.any (· ≠ []) == scope.solverProviderId.any (· ≠ [])

/-- `execution_scopes`, with the exception of a scope that is no valid one. -/
def declaredScopes (plan : EngineeringPlan) : Except ScopeError (List ExecutionScope) :=
  match plan.execution with
  | some _ => .ok (executionScopes plan)
  | none =>
    match (executionScopes plan).find? fun scope => !validScope scope with
    | none => .ok (executionScopes plan)
    | some scope => .error (.invalidScope scope)

theorem declaredScopes_eq_ok {plan : EngineeringPlan} {scopes : List ExecutionScope}
    (h : declaredScopes plan = .ok scopes) : scopes = executionScopes plan := by
  unfold declaredScopes at h
  split at h
  · exact (Except.ok.inj h).symm
  · split at h
    · exact (Except.ok.inj h).symm
    · cases h

/-- `scope_for_native_arguments`. -/
def scopeForNativeArguments (plan : EngineeringPlan) (arguments : List Text) :
    Except ScopeError ExecutionScope := do
  let region ← nativeCommandRegion arguments
  let scopes ← declaredScopes plan
  match scopes.filter (·.name = region) with
  | [scope] => .ok scope
  | _ => .error (.unbound region)

/-- `scope_arguments_for`. -/
def scopeArgumentsFor (contract : NativeToolContract) (scope : ExecutionScope) :
    Except ScopeError (List Text) :=
  match scope.name with
  | none => .ok []
  | some name =>
    if contract.takesRegion then .ok ["-region".toList, name]
    else .error (.noScopeContract contract.command)

/-- `_contract_arguments`. -/
def contractArguments (contract : NativeToolContract) (scope : ExecutionScope) :
    Except ScopeError (List Text) :=
  (scopeArgumentsFor contract scope).map (· ++ contract.defaultArguments)

/-! ### Paths -/

/-- The leading slashes of a `PurePosixPath`. -/
def posixRoot : Text → Text
  | '/' :: '/' :: '/' :: _ => ['/']
  | '/' :: '/' :: _ => ['/', '/']
  | '/' :: _ => ['/']
  | _ => []

/-- `str(PurePosixPath(text))`. -/
def posixText (t : Text) : Text :=
  match posixRoot t ++ asPosix (pathParts t) with
  | [] => ['.']
  | text => text

/-- `str(PurePosixPath(text)).rstrip("/")`. -/
def trimmedPosix (t : Text) : Text := (posixText t).rdropWhile (· == '/')

/-- One path is the other or lies below it. -/
def covers (left right : Text) : Bool :=
  left == right || (right ++ ['/']).isPrefixOf left || (left ++ ['/']).isPrefixOf right

/-- `_path_overlap`. -/
def pathOverlap (left right : Text) : Bool := covers (trimmedPosix left) (trimmedPosix right)

/-- `scope_paths(scope)`: the directory of a scope below a top-level one. -/
def scopeDirectory (top : String) (scope : ExecutionScope) : Text :=
  match scope.name with
  | none => top.toList
  | some name => top.toList ++ '/' :: name

/-- `render_scope_template`, and the text of the template where there is no scope. -/
def PathTemplate.render (scope : Option ExecutionScope) : PathTemplate → Text
  | shared path => scope.elim path fun _ => posixText path
  | inConstant name =>
    scope.elim ("\x7bconstant_dir\x7d/".toList ++ name) fun s =>
      posixText (scopeDirectory "constant" s ++ '/' :: name)
  | inSystem name =>
    scope.elim ("\x7bsystem_dir\x7d/".toList ++ name) fun s =>
      posixText (scopeDirectory "system" s ++ '/' :: name)

/-- The template mentions the scope. -/
def PathTemplate.needsScope : PathTemplate → Bool
  | shared _ => false
  | _ => true

/-! ### Controller commands -/

/-- The contracts of a kind in the order `(execution_order, command)`. -/
def inExecutionOrder (p : NativeToolContract → Bool) : List NativeToolContract :=
  (registeredContracts.filter p).insertionSort fun a b =>
    a.executionOrder < b.executionOrder ∨
      (a.executionOrder = b.executionOrder ∧ a.command ≤ b.command)

/-- A command the controller adds. -/
def controllerCommand (contract : NativeToolContract) (arguments : List Text) (role : NativeRole) :
    NativeOpenFOAMCommand := { command := contract.command, arguments, role }

/-- The consumer of a scope, if its dictionary is among the paths. -/
def consumerOf (paths : List Text) (contract : NativeToolContract) (scope : ExecutionScope) :
    Except ScopeError (Option (Option ExecutionScope × NativeOpenFOAMCommand)) := do
  let arguments ← contractArguments contract scope
  match ← requiredDictionary contract.command arguments with
  | none => return none
  | some required =>
    return if required ≠ [] ∧ required ∈ paths then
      some (some scope, controllerCommand contract arguments .mesh)
    else none

/-- `auto_mesh_consumers`. -/
def autoMeshConsumers (plan : EngineeringPlan) (paths : List Text) :
    Except ScopeError (List (Option ExecutionScope × NativeOpenFOAMCommand)) := do
  let scopes ← declaredScopes plan
  let found ← scopes.mapM fun scope =>
    (inExecutionOrder (·.controllerAutoConsumer)).filterMapM fun contract =>
      consumerOf paths contract scope
  return found.flatten

/-- `final_mesh_validation_commands` for the scopes with one of the given keys. -/
def finalMeshValidationCommands (plan : EngineeringPlan) (only : List Text) :
    Except ScopeError (List NativeOpenFOAMCommand) := do
  let scopes ← declaredScopes plan
  let found ← (scopes.filter fun scope => scopeKey scope ∈ only).mapM fun scope =>
    (inExecutionOrder (·.controllerFinalizer)).mapM fun contract =>
      (contractArguments contract scope).map fun arguments =>
        controllerCommand contract arguments .meshValidation
  return found.flatten

/-- The scopes a mesh or decomposition command works on. -/
def invocationScopeKeys (scopes : List ExecutionScope) (invocation : NativeOpenFOAMCommand) :
    Except ScopeError (List Text) :=
  if (nativeToolContract invocation.command).effect ∉ [.mesh, .decomposition] then .ok []
  else
    match nativeCommandRegion invocation.arguments with
    | .error e => .error e
    | .ok none => .ok (scopes.map scopeKey)
    | .ok (some region) =>
      match scopes.filter (·.name = some region) with
      | [scope] => .ok [scopeKey scope]
      | _ => .error (.undeclared region)

/-! ### Consumers of an edit -/

/-- The controller's delta consumers, for the whole case and for each named scope. -/
def deltaConsumers (scopes : List ExecutionScope) (paths : List Text) :
    Except ScopeError (List (Option ExecutionScope × NativeOpenFOAMCommand)) := do
  let found ← (registeredContracts.filter (·.controllerDeltaConsumer)).mapM fun contract => do
    let shared := if contract.requiredDictionary.any (· ∈ paths) then
      [(none, controllerCommand contract contract.defaultArguments .mesh)] else []
    let named ← (scopes.filter fun scope => contract.takesRegion && scope.name.isSome).filterMapM
      (consumerOf paths contract)
    return shared ++ named
  return found.flatten

/-- `dependency_paths` with `outputs=True`. -/
def dependencyOutputs (scope : Option ExecutionScope) (invocation : NativeOpenFOAMCommand) :
    List Text :=
  (nativeToolContract invocation.command).meshDependencyOutputs.map (·.render scope)

/-- `dependency_paths`. `-dict` replaces the default dictionary among the inputs. -/
def dependencyInputs (scope : Option ExecutionScope) (invocation : NativeOpenFOAMCommand) :
    Except ScopeError (List Text) := do
  let contract := nativeToolContract invocation.command
  let values := contract.meshDependencyInputs.map (·.render scope)
  let default ← match scope with
    | none => .ok contract.requiredDictionary
    | some s => do requiredDictionary invocation.command (← contractArguments contract s)
  match ← requiredDictionary invocation.command invocation.arguments, default with
  | some actual, some default =>
    return if actual ≠ [] ∧ default ≠ [] then
      values.map fun value => if value = default then actual else value
    else values
  | _, _ => return values

/-- The identity of a command in a pipeline. -/
def commandToken (invocation : NativeOpenFOAMCommand) : Text × List Text :=
  (invocation.command, invocation.arguments)

/-- The variables of the search for consumers. -/
structure ConsumerSearch where
  selected : List NativeOpenFOAMCommand := []
  seen : List (Text × List Text)
  dirty : List Text

namespace ConsumerSearch

/-- One candidate of a pass: it is selected when an input of it is dirty. -/
def visit (s : ConsumerSearch) (candidate : Option ExecutionScope × NativeOpenFOAMCommand) :
    Except ScopeError ConsumerSearch :=
  let (scope, invocation) := candidate
  if commandToken invocation ∈ s.seen then .ok s
  else
    match dependencyInputs scope invocation with
    | .error e => .error e
    | .ok inputs =>
      if s.dirty.any fun path => inputs.any (pathOverlap path) then
        .ok { selected := s.selected ++ [invocation]
              seen := commandToken invocation :: s.seen
              dirty := s.dirty ++ dependencyOutputs scope invocation }
      else .ok s

/-- The passes over the candidates, until one adds nothing. -/
def converge (candidates : List (Option ExecutionScope × NativeOpenFOAMCommand)) :
    ℕ → ConsumerSearch → Except ScopeError ConsumerSearch
  | 0, s => .ok s
  | passes + 1, s => do
    let s' ← candidates.foldlM visit s
    if s'.selected.length = s.selected.length then return s' else converge candidates passes s'

end ConsumerSearch

/-- The scope an explicit command is rendered in, where a template of it mentions one. -/
def explicitScope (plan : EngineeringPlan) (invocation : NativeOpenFOAMCommand) :
    Except ScopeError (Option ExecutionScope) :=
  let contract := nativeToolContract invocation.command
  if (contract.meshDependencyInputs ++ contract.meshDependencyOutputs).any (·.needsScope) then
    (scopeForNativeArguments plan invocation.arguments).map some
  else .ok none

/-- The command and region of an invocation. -/
def explicitKey (invocation : NativeOpenFOAMCommand) : Except ScopeError (Text × Option Text) :=
  (nativeCommandRegion invocation.arguments).map fun region => (invocation.command, region)

/-- `auto_consumers_for_delta`. Every pass but the last selects a candidate, so no more
passes are needed than there are candidates, and one. -/
def autoConsumersForDelta (plan : EngineeringPlan) (paths changed : List Text)
    (explicit : List NativeOpenFOAMCommand) : Except ScopeError (List NativeOpenFOAMCommand) := do
  let candidates ← autoMeshConsumers plan paths
  let scopes ← declaredScopes plan
  let candidates := candidates ++ (← deltaConsumers scopes paths)
  let outputs ← explicit.mapM fun invocation =>
    (explicitScope plan invocation).map fun scope => dependencyOutputs scope invocation
  let keys ← explicit.mapM explicitKey
  -- an explicit command replaces the inferred one of its command and region
  let candidates ← candidates.filterM fun candidate =>
    (explicitKey candidate.2).map fun key => decide (key ∉ keys)
  let s ← ConsumerSearch.converge candidates (candidates.length + 1)
    { seen := explicit.map commandToken, dirty := changed.map posixText ++ outputs.flatten }
  return s.selected

end Engineering
end OpenFoamAgent
