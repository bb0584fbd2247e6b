/-
# Native tool contracts

`tools/native_contracts.py` with the registry `data/native_tool_contracts.json`:
what each OpenFOAM utility needs, which files of the mesh it reads and writes,
and when it may run. A contract never selects a tool.

The scope arguments of the registry are `["-region", "{scope_name}"]` or absent,
and its templates name a fixed path, a file of the scope's `constant` or `system`
directory, or a stage of the scope's mesh.
-/
import Mathlib.Data.List.Sort
import OpenFoamAgent.Schemas.Authoring
import OpenFoamAgent.Workspace.Path

namespace OpenFoamAgent
namespace Engineering

open Python Schemas Workspace

/-- `Phase`: when a native command may run. -/
inductive NativePhase where
  | authoring | repair | runtimeRepair | strategyRevision | postprocess | runtime | restart
  deriving DecidableEq

/-- `effect`. -/
inductive NativeEffect where
  | mesh | validation | decomposition | destructive | query | solve | postprocess
  | initialization | reconstruction | unknown
  deriving DecidableEq

/-- A template of `mesh_dependency_inputs` or `mesh_dependency_outputs`. -/
inductive PathTemplate where
  | shared (path : Text)
  /-- `{constant_dir}/name` -/
  | inConstant (name : Text)
  /-- `{system_dir}/name` -/
  | inSystem (name : Text)
  deriving DecidableEq

/-- A template of `ordering_inputs` or `ordering_outputs`. -/
inductive OrderingLabel where
  | shared (label : Text)
  /-- `mesh:{scope_key}:stage` -/
  | mesh (stage : Text)
  deriving DecidableEq

/-- The phases in which a case is written or edited. -/
def editPhases : List NativePhase := [.authoring, .repair, .runtimeRepair, .strategyRevision]

/-- `NativeToolContract`. -/
structure NativeToolContract where
  command : Text
  effect : NativeEffect
  requiredDictionary : Option Text := none
  permittedPhases : List NativePhase := editPhases
  controllerFinalizer : Bool := false
  /-- `scope_arguments` is not empty. -/
  takesRegion : Bool := false
  meshDependencyInputs : List PathTemplate := []
  meshDependencyOutputs : List PathTemplate := []
  controllerAutoConsumer : Bool := false
  controllerDeltaConsumer : Bool := false
  executionOrder : ℕ := 500
  defaultArguments : List Text := []
  orderingInputs : List OrderingLabel := []
  orderingOutputs : List OrderingLabel := []
  deriving DecidableEq

/-- The mesh of the scope, before and after snapping. -/
def meshed : List OrderingLabel := [.mesh "base".toList, .mesh "snapped".toList]

/-- `registered_contracts`: the registry, sorted by command. -/
def registeredContracts : List NativeToolContract := [
  { command := "blockMesh".toList, effect := .mesh,
    requiredDictionary := some "system/blockMeshDict".toList, takesRegion := true,
    meshDependencyInputs := [.inSystem "blockMeshDict".toList],
    meshDependencyOutputs := [.inConstant "polyMesh".toList], controllerAutoConsumer := true,
    executionOrder := 100, orderingOutputs := [.mesh "base".toList] },
  { command := "checkMesh".toList, effect := .validation, controllerFinalizer := true,
    takesRegion := true, executionOrder := 10000, orderingInputs := meshed },
  { command := "createBaffles".toList, effect := .mesh, orderingInputs := meshed },
  { command := "createPatch".toList, effect := .mesh,
    requiredDictionary := some "system/createPatchDict".toList, takesRegion := true,
    meshDependencyInputs := [.inSystem "createPatchDict".toList, .inConstant "polyMesh".toList],
    meshDependencyOutputs := [.inConstant "polyMesh".toList], orderingInputs := meshed },
  { command := "decomposePar".toList, effect := .decomposition,
    requiredDictionary := some "system/decomposeParDict".toList, takesRegion := true,
    orderingInputs := meshed },
  { command := "extrudeMesh".toList, effect := .mesh,
    requiredDictionary := some "system/extrudeMeshDict".toList, takesRegion := true,
    orderingInputs := meshed },
  { command := "fluentMeshToFoam".toList, effect := .mesh },
  { command := "foamCleanCase".toList, effect := .destructive, permittedPhases := [] },
  { command := "foamCleanPolyMesh".toList, effect := .destructive, permittedPhases := [] },
  { command := "foamDictionary".toList, effect := .validation },
  { command := "foamListTimes".toList, effect := .query },
  { command := "foamMultiRun".toList, effect := .solve, permittedPhases := [.runtime] },
  { command := "foamPostProcess".toList, effect := .postprocess,
    permittedPhases := [.postprocess] },
  { command := "foamRun".toList, effect := .solve, permittedPhases := [.runtime] },
  { command := "foamToC".toList, effect := .query },
  { command := "gmshToFoam".toList, effect := .mesh },
  { command := "mapFields".toList, effect := .initialization },
  { command := "potentialFoam".toList, effect := .initialization, orderingInputs := meshed },
  { command := "reconstructPar".toList, effect := .reconstruction,
    permittedPhases := [.runtime, .restart] },
  { command := "reconstructParMesh".toList, effect := .reconstruction,
    permittedPhases := [.runtime, .restart] },
  { command := "renumberMesh".toList, effect := .mesh,
    meshDependencyInputs := [.inConstant "polyMesh".toList],
    meshDependencyOutputs := [.inConstant "polyMesh".toList], orderingInputs := meshed },
  { command := "setFields".toList, effect := .initialization,
    requiredDictionary := some "system/setFieldsDict".toList, takesRegion := true,
    orderingInputs := meshed },
  { command := "setsToZones".toList, effect := .mesh, orderingInputs := meshed },
  { command := "snappyHexMesh".toList, effect := .mesh,
    requiredDictionary := some "system/snappyHexMeshDict".toList, takesRegion := true,
    meshDependencyInputs := [.inSystem "snappyHexMeshDict".toList,
      .inConstant "polyMesh".toList, .shared "constant/triSurface".toList,
      .shared "constant/geometry".toList],
    meshDependencyOutputs := [.inConstant "polyMesh".toList], controllerAutoConsumer := true,
    executionOrder := 200, defaultArguments := ["-overwrite".toList],
    orderingInputs := [.mesh "base".toList, .shared "features:global:ready".toList],
    orderingOutputs := [.mesh "snapped".toList] },
  { command := "splitMeshRegions".toList, effect := .mesh, orderingInputs := meshed },
  { command := "surfaceCheck".toList, effect := .validation },
  { command := "surfaceFeatureExtract".toList, effect := .mesh,
    requiredDictionary := some "system/surfaceFeatureExtractDict".toList, takesRegion := true,
    meshDependencyInputs := [.shared "system/surfaceFeatureExtractDict".toList,
      .shared "constant/triSurface".toList],
    meshDependencyOutputs := [.shared "constant/triSurface".toList],
    controllerDeltaConsumer := true,
    orderingInputs := [.shared "surface:global:transformed".toList],
    orderingOutputs := [.shared "features:global:ready".toList] },
  { command := "surfaceFeatures".toList, effect := .mesh,
    requiredDictionary := some "system/surfaceFeaturesDict".toList,
    meshDependencyInputs := [.shared "system/surfaceFeaturesDict".toList,
      .shared "constant/triSurface".toList],
    meshDependencyOutputs := [.shared "constant/triSurface".toList,
      .shared "constant/extendedFeatureEdgeMesh".toList], controllerDeltaConsumer := true,
    orderingInputs := [.shared "surface:global:transformed".toList],
    orderingOutputs := [.shared "features:global:ready".toList] },
  { command := "surfaceTransformPoints".toList, effect := .mesh,
    orderingOutputs := [.shared "surface:global:transformed".toList] },
  { command := "topoSet".toList, effect := .mesh,
    requiredDictionary := some "system/topoSetDict".toList, takesRegion := true,
    meshDependencyInputs := [.inSystem "topoSetDict".toList, .inConstant "polyMesh".toList],
    meshDependencyOutputs := [.inConstant "polyMesh".toList], orderingInputs := meshed },
  { command := "transformPoints".toList, effect := .mesh,
    meshDependencyInputs := [.inConstant "polyMesh".toList],
    meshDependencyOutputs := [.inConstant "polyMesh".toList], orderingInputs := meshed }]

/-- `native_tool_contract`: an unknown command has no authority. -/
def nativeToolContract (command : Text) : NativeToolContract :=
  (registeredContracts.find? fun contract => contract.command = command).getD
    { command, effect := .unknown, permittedPhases := [] }

/-- The `ValueError`s of the contracts and of the execution scopes. -/
inductive ScopeError where
  /-- `Native command cannot combine -region with -allRegions.` -/
  | allRegions
  /-- `Native command may declare -region at most once.` -/
  | repeatedRegion
  /-- `Native command -region is missing its region name.` -/
  | missingRegion
  /-- `Unsafe native region name: {region!r}` -/
  | unsafeRegion (region : Text)
  /-- `Native invocation cannot be bound to exactly one declared execution scope: {target}` -/
  | unbound (region : Option Text)
  /-- `Native tool {command!r} has no named-scope invocation contract.` -/
  | noScopeContract (command : Text)
  /-- `Native mesh invocation targets undeclared scope region:{region}` -/
  | undeclared (region : Text)
  /-- The validation error of an `ExecutionScope`. -/
  | invalidScope (scope : ExecutionScope)
  /-- The validation error of a `NativeOpenFOAMCommand`. -/
  | invalidCommand (command : Text)
  deriving DecidableEq

/-- `[A-Za-z][A-Za-z0-9_.-]*`. -/
def isRegionName : Text → Bool := isWord isAsciiLetter fun c => isAsciiWord c || c ∈ ['.', '-']

/-- `native_command_region`. -/
def nativeCommandRegion (arguments : List Text) : Except ScopeError (Option Text) :=
  let positions := arguments.count "-region".toList
  if "-allRegions".toList ∈ arguments ∧ positions ≠ 0 then .error .allRegions
  else if positions > 1 then .error .repeatedRegion
  else if positions = 0 then .ok none
  else
    match arguments[arguments.idxOf "-region".toList + 1]? with
    | none => .error .missingRegion
    | some region =>
      if isRegionName region then .ok (some region) else .error (.unsafeRegion region)

/-- The path behind the first of `-dict` and `-dictFile` that has one. -/
def dictOverride (arguments : List Text) : Option Text :=
  ["-dict".toList, "-dictFile".toList].findSome? fun flag =>
    if flag ∈ arguments then arguments[arguments.idxOf flag + 1]? else none

/-- The dictionary of a region: `system/name` moves to `system/region/name`. -/
def regionDictionary (region required : Text) : Text :=
  match pathParts required with
  | [top, name] => if top = "system".toList then asPosix [top, region, name] else required
  | _ => required

/-- `required_dictionary`. -/
def requiredDictionary (command : Text) (arguments : List Text) :
    Except ScopeError (Option Text) :=
  match dictOverride arguments with
  | some path => .ok (some path)
  | none =>
    match nativeCommandRegion arguments with
    | .error e => .error e
    | .ok none => .ok (nativeToolContract command).requiredDictionary
    | .ok (some region) =>
      .ok ((nativeToolContract command).requiredDictionary.map (regionDictionary region))

/-- `command_permitted`. -/
def commandPermitted (command : Text) (phase : NativePhase) : Bool :=
  phase ∈ (nativeToolContract command).permittedPhases

end Engineering
end OpenFoamAgent
