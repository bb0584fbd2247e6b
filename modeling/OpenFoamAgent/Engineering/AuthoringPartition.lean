/-
# Partitioned authoring prompts

`engineering/authoring_tasks.py`: `compile_tasks` divides the required files of a plan into
tasks whose prompts fit a budget. `project` cuts the payload down to some of the files: the
facts that these files are bound to or that no file is bound to, with all they depend on,
and the plan and the evidence of these files. A compact projection shortens what is advisory.

The files are packed greedily: a file joins the current task as long as the projection fits
with a reserve for the metadata of the task. At the end the prompt of each task is built
with the exact budget, and the assigned files and the projected facts are compared with
those of the payload.

The walk over a set, the text of a value that is none and the digest of the standard
library are those of the interpreter.
-/
import OpenFoamAgent.Library.Dict
import OpenFoamAgent.Library.Worklist
import OpenFoamAgent.Llm.Context
import OpenFoamAgent.Schemas.Authoring

namespace OpenFoamAgent
namespace Engineering
namespace Partition

open Python Llm Schemas Worklist

/-- What the interpreter brings. -/
structure Interpreter where
  /-- `str` of a value that is not a text. -/
  repr : Json → Text
  /-- `hashlib.sha256(data).hexdigest()`. -/
  sha256 : Bytes → Text
  order : SetOrder

/-! ### Facts and bindings -/

structure Fact where
  id : Text
  item : Json

/-- The identifier of a fact is read. -/
def Fact.read (item : Json) : Except PythonError Fact := do
  return ⟨← (← item.item "id").text, item⟩

/-- `item.get("depends_on", [])`. -/
def dependsOn (item : Json) : Except PythonError (List Text) := do
  (← item.getD "depends_on" (.list [])).texts

/-- `by_id.get`: the fact that an identifier names. The identifiers of an intake are unique;
of facts with the same one the last would count. -/
def named (facts : List Fact) (id : Text) : Option Json :=
  (Dict.ofItems (facts.map fun fact => (fact.id, fact.item))).get id

/-- The dependencies of the fact that an identifier names. -/
def dependencies (facts : List Fact) (id : Text) : Except PythonError (List Text) :=
  match named facts id with
  | none => .error .value
  | some item => dependsOn item

/-- Every identifier that some fact depends on. -/
def allDependencies (facts : List Fact) : List Text :=
  facts.flatMap fun fact => (dependsOn fact.item).toOption.getD []

/-- `_fact_closure`. -/
def factClosure (facts : List Fact) (ids : List Text) : Except PythonError (List Fact) := do
  let turns := ids.length + (allDependencies facts).length + 1
  let selected ← closeOver (dependencies facts) turns (ids, ids)
  return facts.filter (·.id ∈ selected)

/-- `item["path"]` of each item under a key. -/
def pathsUnder (value : Json) (key : String) : Except PythonError (List Text) := do
  (← (← value.getD key (.list [])).items).mapM fun item => do (← item.item "path").text

/-- `_binding_paths`. -/
def bindingPaths (binding : Json) : Except PythonError (List Text) := do
  let files ← (← binding.getD "case_files" (.list [])).texts
  let assertions ← pathsUnder binding "case_assertions"
  let relation ← binding.getD "numeric_relation" .null
  let relation := if relation.truthy then relation else .dict []
  return files ++ assertions ++ (← pathsUnder relation "numerator") ++
    (← pathsUnder relation "denominator")

structure Binding where
  factId : Text
  paths : List Text
  item : Json

def Binding.read (item : Json) : Except PythonError Binding := do
  return ⟨← (← item.item "fact_id").text, ← bindingPaths item, item⟩

/-- The facts of an intake, which is an object with a list of facts. -/
def intakeFacts (intake : Json) : Except PythonError (List Fact) :=
  match intake with
  | .dict entries => match Json.lookup entries "facts" with
    | some (.list items) => items.mapM Fact.read
    | _ => .error .value
  | _ => .error .value

/-- `intake.get("provenance_dependencies", [])`. -/
def provenance (intake : Json) : Except PythonError (List Fact) := do
  (← (← intake.getD "provenance_dependencies" (.list [])).items).mapM Fact.read

def planBindings (plan : Json) : Except PythonError (List Binding) := do
  (← (← plan.getD "confirmed_fact_bindings" (.list [])).items).mapM Binding.read

/-- The intake of a task, the identifiers of its facts and the bindings of its files. -/
structure ProjectedIntake where
  intake : Json
  selected : List Text
  relevant : List Binding

/-- The bindings of some files, and those of no file. -/
def relevantBindings (bindings : List Binding) (paths : List Text) : List Binding :=
  bindings.filter fun binding => binding.paths = [] ∨ binding.paths.any (· ∈ paths)

/-- The identifiers that a projection starts from. -/
def startIds (facts : List Fact) (bindings : List Binding) (paths : List Text) : List Text :=
  let mapped := (bindings.filter (·.paths ≠ [])).map (·.factId)
  (relevantBindings bindings paths).map (·.factId) ++
    (facts.filter (·.id ∉ mapped)).map (·.id)

/-- The facts of the intake itself among those of a closure. -/
def primary (facts closure : List Fact) : List Fact :=
  closure.filter fun fact => fact.id ∈ facts.map (·.id)

/-- The others. -/
def secondary (facts closure : List Fact) : List Fact :=
  closure.filter fun fact => fact.id ∉ facts.map (·.id)

/-- The intake with the facts of a closure. -/
def withClosure (entries : List (Text × Json)) (facts closure : List Fact) : List (Text × Json) :=
  let projected := Json.set "facts" (.list ((primary facts closure).map (·.item))) entries
  if (Json.lookup entries "provenance_dependencies").isSome then
    Json.set "provenance_dependencies"
      (.list ((secondary facts closure).map (·.item))) projected
  else projected

/-- The first part of `project`. -/
def projectIntake (payload : Json) (paths : List Text) : Except PythonError ProjectedIntake := do
  let full ← payload.item "frozen_engineering_plan"
  let intake ← payload.item "confirmed_intake"
  let facts ← intakeFacts intake
  let bindings ← planBindings full
  let closure ← factClosure (facts ++ (← provenance intake)) (startIds facts bindings paths)
  return {
    intake := .dict (withClosure (← intake.entries) facts closure)
    selected := (primary facts closure).map (·.id)
    relevant := relevantBindings bindings paths }

/-! ### Compact projections -/

section

variable (py : Interpreter)

/-- `compact_text(str(value), limit)`. -/
def compactStr (value : Json) (limit : ℕ) : Json :=
  match value with
  | .str t => .str (compactText t limit)
  | _ => .str (compactText (py.repr value) limit)

/-- `item.get("path") in paths`. -/
def pathIn (paths : List Text) (item : Json) : Except PythonError Bool := do
  return (← item.getD "path" .null).isOneOf paths

/-- `[item for item in value.get(key, []) if item.get("path") in paths]`. -/
def itemsIn (paths : List Text) (value : Json) (key : String) : Except PythonError (List Json) := do
  (← (← value.getD key (.list [])).items).filterM (pathIn paths)

/-- `_compact_binding`. -/
def compactBinding (binding : Json) (paths : List Text) : Except PythonError Json := do
  let files ← (← binding.getD "case_files" (.list [])).items
  let item := Json.set "case_files" (.list (files.filter (·.isOneOf paths))) (← binding.entries)
  let item := Json.set "case_assertions" (.list (← itemsIn paths binding "case_assertions")) item
  let item ← match ← binding.getD "numeric_relation" .null with
    | .dict relation => do
      let numerator ← itemsIn paths (.dict relation) "numerator"
      let denominator ← itemsIn paths (.dict relation) "denominator"
      let relation := Json.update relation
        [("numerator", .list numerator), ("denominator", .list denominator)]
      let relation := if numerator.isEmpty ∧ denominator.isEmpty then .null else .dict relation
      pure (Json.set "numeric_relation" relation item)
    | _ => pure item
  let explanation ← binding.getD "explanation" (.str [])
  let explanation := if explanation.truthy then compactStr py explanation 160 else .str []
  return .dict (Json.set "explanation" explanation item)

/-- `essential` and `useful`. -/
def keptPlanFields : List Text :=
  ["schema_version", "case_name", "solver", "solver_provider_id", "execution",
    "region_layouts", "interfaces", "completion", "openfoam_distribution",
    "openfoam_version", "temporal_behavior", "motion_kind",
    "mesh_motion_requirement", "confirmed_intake_sha256",
    "problem_interpretation", "mesh_strategy", "engineering_defaults"].map String.toList

def compactDefault (item : Json) : Except PythonError Json := do
  return .object [
    ("parameter", ← item.getD "parameter" .null),
    ("value", ← item.getD "value" .null),
    ("unit", ← item.getD "unit" (.str [])),
    ("basis", ← item.getD "basis" (.str "representative".toList))]

def compactDecision (item : Json) : Except PythonError Json := do
  return .object [
    ("area", ← item.getD "area" .null),
    ("choice", compactStr py (← item.getD "choice" (.str [])) 320),
    ("risk_level", ← item.getD "risk_level" (.str "medium".toList)),
    ("verification_stage", ← item.getD "verification_stage" (.str "pre_validation".toList))]

/-- The pointer to a piece of evidence that has an identifier. -/
def evidencePointer (item : Json) : Except PythonError (Option Json) := do
  if ¬ item.isDict then return none
  let id ← item.getD "evidence_id" .null
  return if id.truthy then some (.object [("evidence_id", id)]) else none

/-- `plan["projection_notice"]`. -/
def projectionNotice : Text :=
  ["Authoring-only projection. Omitted ", "narrative/result-analysis fields remain ",
    "immutable in the controller-held full plan ", "identified by ",
    "authoring_contract.full_plan_sha256."].flatMap String.toList

/-- A field of the plan is shortened, where there is one. -/
def shorten (key : String) (limit : ℕ) (plan : List (Text × Json)) : List (Text × Json) :=
  match Json.lookup plan key with
  | some value => Json.set key (compactStr py value limit) plan
  | none => plan

/-- `_compact_plan_projection`. -/
def compactPlanProjection (full : Json) (paths : List Text) (selected : List Text)
    (relevant : List Binding) : Except PythonError Json := do
  let bound := relevant.filter (·.factId ∈ selected)
  let boundPlanFields ← bound.mapM fun binding => do
    (← binding.item.getD "plan_fields" (.list [])).texts
  let plan := (← full.entries).filter fun e => e.1 ∈ keptPlanFields ∨ e.1 ∈ boundPlanFields.flatten
  let plan := shorten py "mesh_strategy" 700 (shorten py "problem_interpretation" 1200 plan)
  let defaults ← (← full.getD "engineering_defaults" (.list [])).items
  let decisions ← (← full.getD "decisions" (.list [])).items
  let assumptions ← (← full.getD "assumptions" (.list [])).items
  let postprocess ← (← full.getD "postprocess_strategy" (.list [])).items
  -- what a run is to yield matters to the control dictionary only
  let results (key : String) : Except PythonError Json :=
    if "system/controlDict".toList ∈ paths then full.getD key (.list []) else .ok (.list [])
  let factIds ← (← full.getD "confirmed_fact_ids" (.list [])).items
  let evidence ← (← full.getD "evidence" (.list [])).items
  return .dict (Json.update plan [
    ("engineering_defaults", .list (← (defaults.filter (·.isDict)).mapM compactDefault)),
    ("decisions", .list (← (decisions.filter (·.isDict)).mapM (compactDecision py))),
    ("assumptions", .list (assumptions.map (compactStr py · 240))),
    ("postprocess_strategy", .list (postprocess.map (compactStr py · 200))),
    ("quantities_of_interest", ← results "quantities_of_interest"),
    ("conservation_checks", ← results "conservation_checks"),
    ("required_case_files", .ofTexts (py.order.list paths)),
    ("confirmed_fact_ids", .list (factIds.filter (·.isOneOf selected))),
    ("confirmed_fact_bindings", .list (← bound.mapM fun b => compactBinding py b.item paths)),
    ("implementation_evidence_bindings",
      .list (← itemsIn paths full "implementation_evidence_bindings")),
    ("evidence", .list (← (evidence.take 16).filterMapM evidencePointer)),
    ("projection_notice", .str projectionNotice)])

def compactRecord (item : Json) : Except PythonError Json := do
  let content ← item.getD "content" .null
  return .object [
    ("evidence_id", ← item.getD "evidence_id" .null),
    ("source", ← item.getD "source" .null),
    ("record_id", ← item.getD "record_id" .null),
    ("openfoam_version", ← item.getD "openfoam_version" .null),
    ("excerpt_sha256", ← item.getD "excerpt_sha256" .null),
    ("content_excerpt", if content.truthy then compactStr py content 900 else .str [])]

/-- `_compact_evidence_pack`. -/
def compactEvidencePack (evidence : Json) (paths : List Text) : Except PythonError Json := do
  let coverage ← itemsIn paths evidence "file_coverage"
  let ids ← coverage.mapM fun item => do (← item.getD "evidence_ids" (.list [])).texts
  let records ← (← evidence.getD "records" (.list [])).items
  let records ← records.filterM fun item => do
    return (← item.getD "evidence_id" .null).isOneOf ids.flatten
  return .object [
    ("records", .list (← records.mapM (compactRecord py))),
    ("file_coverage", .list coverage),
    ("complete", .bool (← evidence.getD "complete" .null).truthy),
    ("scope", .str (["Advisory file-scoped projection; ", "native/deterministic validation ",
      "authorizes progress."].flatMap String.toList))]

/-! ### Projections -/

/-- `sha`. -/
def sha (value : Json) : Text := py.sha256 (encode value.dumpsSorted)

/-- The items of a list whose text under a key is one of the texts. -/
def itemsOf (value : Json) (key field : String) (ts : List Text) :
    Except PythonError (List Json) := do
  (← (← value.item key).items).filterM fun item => do return (← item.item field).isOneOf ts

/-- The plan of a projection that is not compact. -/
def planProjection (full : Json) (paths selected : List Text) (bindings : List Binding) :
    Except PythonError Json := do
  let factIds ← (← full.getD "confirmed_fact_ids" (.list [])).items
  let evidence ← match Json.lookup (← full.entries) "implementation_evidence_bindings" with
    | some _ => itemsOf full "implementation_evidence_bindings" "path" paths
    | none => pure []
  return .dict (Json.update (← full.entries) [
    ("required_case_files", .ofTexts paths),
    ("confirmed_fact_ids", .list (factIds.filter (·.isOneOf selected))),
    ("confirmed_fact_bindings",
      .list ((bindings.filter (·.factId ∈ selected)).map (·.item))),
    ("implementation_evidence_bindings", .list evidence)])

/-- The evidence of a projection that is not compact. -/
def evidenceProjection (evidence : Json) (paths : List Text) : Except PythonError Json := do
  let coverage ← itemsOf evidence "file_coverage" "path" paths
  let ids ← coverage.mapM fun item => do (← item.item "evidence_ids").texts
  let records ← itemsOf evidence "records" "evidence_id" ids.flatten
  return .dict (Json.update (← evidence.entries)
    [("file_coverage", .list coverage), ("records", .list records)])

/-- `result["geometry_authoring_policy"]` of a compact projection. -/
def compactGeometryPolicy (policy : Json) : Except PythonError Json := do
  return .object [
    ("mode", ← policy.getD "mode" (.str "progress_first_geometry_v1".toList)),
    ("user_assets_present", .bool (← policy.getD "user_assets_present" .null).truthy),
    ("agent_generated_geometry_authorized",
      .bool (← policy.getD "agent_generated_geometry_authorized" (.bool true)).truthy),
    ("representative_geometry_defaults_authorized",
      .bool (← policy.getD "representative_geometry_defaults_authorized" (.bool true)).truthy),
    ("rule", .str (["If exact user-owned geometry is not a ",
      "confirmed requirement, missing CAD/STL does ",
      "not block; author self-contained procedural ", "geometry or a bounded case-local ASCII ",
      "surface and record representative ", "dimensions as engineering_defaults."].flatMap String.toList))]

/-- The keys that a projection replaces. -/
def projectedKeys : List Text :=
  ["frozen_engineering_plan", "confirmed_intake", "implementation_evidence_pack",
    "current_case_files"].map String.toList

/-- The payload without the keys that are replaced. -/
def carriedOver (payload : Json) (compact : Bool) : Except PythonError (List (Text × Json)) := do
  let result := (← payload.entries).filter (·.1 ∉ projectedKeys)
  match Json.lookup result "geometry_authoring_policy" with
  | some (.dict policy) =>
    if compact then
      return Json.set "geometry_authoring_policy" (← compactGeometryPolicy (.dict policy)) result
    else return result
  | _ => return result

/-- `result["authoring_contract"]`. -/
def authoringContract (payload full : Json) (compact : Bool) : Except PythonError Json := do
  let files ← full.item "required_case_files"
  return .object [
    ("full_plan_sha256", .str (sha py full)),
    ("full_intake_sha256", .str (sha py (← payload.item "confirmed_intake"))),
    ("required_files_sha256", .str (sha py files)),
    ("total_required_files", .ofNat (← files.items).length),
    ("projection_only", .bool true),
    ("compact_projection", .bool compact),
    ("instruction", .str (["This is a file-scoped projection, not a ",
      "replacement plan. Do not modify global ", "contracts."].flatMap String.toList))]

/-- The plan of a task. -/
def projectedPlan (full : Json) (paths : List Text) (p : ProjectedIntake) (compact : Bool) :
    Except PythonError Json := do
  if compact then compactPlanProjection py full paths p.selected p.relevant
  else planProjection full paths p.selected (← planBindings full)

/-- The evidence of a task. -/
def projectedEvidence (pack : Json) (paths : List Text) (compact : Bool) :
    Except PythonError Json :=
  if compact then compactEvidencePack py pack paths else evidenceProjection pack paths

/-- `project`, as the entries of its result. -/
def project (payload : Json) (paths : List Text) (compact : Bool) :
    Except PythonError (List (Text × Json)) := do
  let full ← payload.item "frozen_engineering_plan"
  let projected ← projectIntake payload paths
  let pack ← payload.item "implementation_evidence_pack"
  let plan ← projectedPlan py full paths projected compact
  let evidence ← projectedEvidence py pack paths compact
  let result ← carriedOver payload compact
  let current ← (← payload.getD "current_case_files" (.list [])).items
  let current ← (current.filter (·.isDict)).filterM (pathIn paths)
  return Json.update result [
    ("frozen_engineering_plan", plan),
    ("confirmed_intake", projected.intake),
    ("implementation_evidence_pack", evidence),
    ("current_case_files", .list current),
    ("authoring_contract", ← authoringContract py payload full compact)]

/-! ### The tasks -/

/-- The prompt of a candidate is within a limit. Only a budget that is too small is caught. -/
def fits (instruction : Text) (limit : ℤ) (candidate : List (Text × Json)) :
    Except PythonError Bool :=
  match buildBoundedJsonPrompt instruction (.dict candidate) limit with
  | .ok _ => .ok true
  | .error .runtime => .ok false
  | .error e => .error e

/-- `projection_that_fits`, as far as its caller looks: the mode of the projection. -/
def projectionThatFits (instruction : Text) (payload : Json) (limit : ℤ) (paths : List Text) :
    Except PythonError (Option Bool) := do
  if ← fits instruction limit (← project py payload paths false) then return some false
  if ← fits instruction limit (← project py payload paths true) then return some true
  return none

/-- `batches` with `projection_modes`, and `current`. -/
structure Packing where
  batches : List (List Text × Bool) := []
  current : List Text := []

/-- The current task is closed. -/
def Packing.close (instruction : Text) (payload : Json) (limit : ℤ) (s : Packing) :
    Except PythonError Packing := do
  if s.current = [] then return s
  match ← projectionThatFits py instruction payload limit s.current with
  | none => throw .runtime
  | some mode => return { s with batches := s.batches ++ [(s.current, mode)] }

/-- One turn of the loop over the files. -/
def Packing.add (instruction : Text) (payload : Json) (limit : ℤ) (s : Packing) (path : Text) :
    Except PythonError Packing := do
  if (← projectionThatFits py instruction payload limit (s.current ++ [path])).isSome then
    return { s with current := s.current ++ [path] }
  let s ← s.close py instruction payload limit
  if (← projectionThatFits py instruction payload limit [path]).isNone then throw .runtime
  return { s with current := [path] }

/-- `meta["response_contract"]`. -/
def responseContract : Text :=
  ["Echo task_id. Return exactly these assigned ", "artifacts. required_case_files is ",
    "controller-owned and may be omitted. ", "Intermediate tasks set defer_native=true; ",
    "any emitted native commands are ignored. ", "Native/validation lists are optional ",
    "strategy hints even on the final task; ", "Python compiles the authoritative ",
    "CaseBuildGraph and final checkMesh from the ", "assembled bundle."].flatMap String.toList

/-- `meta`. -/
def taskMeta (plan : Json) (count index : ℕ) (paths : List Text) (compact : Bool) : Json :=
  .object [
    ("id", .str ((sha py plan).take 16 ++ ':' :: (Nat.repr (index + 1)).toList)),
    ("index", .ofNat (index + 1)),
    ("count", .ofNat count),
    ("paths", .ofTexts paths),
    ("is_final", .bool (index + 1 = count)),
    ("compact_plan_projection", .bool compact),
    ("response_contract", .str responseContract)]

/-- A projection with the metadata of its task. -/
def taskOf (payload plan : Json) (count index : ℕ) (paths : List Text) (compact : Bool) :
    Except PythonError (List (Text × Json)) := do
  return Json.set "authoring_task" (taskMeta py plan count index paths compact)
    (← project py payload paths compact)

/-- One turn of the loop over the batches. -/
def compileTask (instruction : Text) (payload plan : Json) (maxChars : ℤ) (count : ℕ)
    (batch : (List Text × Bool) × ℕ) : Except PythonError Json := do
  let task ← taskOf py payload plan count batch.2 batch.1.1 batch.1.2
  match buildBoundedJsonPrompt instruction (.dict task) maxChars with
  | .ok _ => return .dict task
  | .error .runtime =>
    if batch.1.2 then throw .runtime
    let task ← taskOf py payload plan count batch.2 batch.1.1 true
    let _ ← buildBoundedJsonPrompt instruction (.dict task) maxChars
    return .dict task
  | .error e => throw e

/-- `task["authoring_task"]["paths"]`. -/
def taskPaths (task : Json) : Except PythonError (List Text) := do
  (← (← task.item "authoring_task").item "paths").texts

/-- `task["confirmed_intake"]["facts"]`. -/
def taskFacts (task : Json) : Except PythonError (List Fact) := do
  intakeFacts (← task.item "confirmed_intake")

/-- The result of `compile_tasks`; its cursor is 0 and its responses are none. -/
structure PartitionedQueue where
  planSha256 : Text
  tasks : List Json
  assignedFiles : List Text

/-- `compile_tasks`. -/
def compileTasks (instruction : Text) (payload : Json) (maxChars : ℤ) :
    Except PythonError PartitionedQueue := do
  if maxChars < 5200 then throw .runtime
  let plan ← payload.item "frozen_engineering_plan"
  let paths ← (← plan.item "required_case_files").texts
  if ¬ paths.Nodup ∨ paths = [] then throw .value
  let limit := maxChars - 600
  let packing ← paths.foldlM (Packing.add py instruction payload limit) {}
  let packing ← packing.close py instruction payload limit
  let tasks ← packing.batches.zipIdx.mapM
    (compileTask py instruction payload plan maxChars packing.batches.length)
  let assigned ← tasks.mapM taskPaths
  let projected ← tasks.mapM taskFacts
  let facts ← intakeFacts (← payload.item "confirmed_intake")
  if assigned.flatten ≠ paths ∨
      ¬ (facts.map (·.id) ⊆ projected.flatten.map (·.id) ∧
        projected.flatten.map (·.id) ⊆ facts.map (·.id)) then throw .value
  return ⟨sha py plan, tasks, assigned.flatten⟩

end

end Partition
end Engineering
end OpenFoamAgent
