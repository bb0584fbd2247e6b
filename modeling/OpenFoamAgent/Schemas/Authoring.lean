/-
# Authoring payloads

`CaseAuthoringAction` and the models inside it (`schemas/engineering.py`): the raw
payload as it arrives, the before-validators that drop its repetitions and note
the conflicts among them, the field checks and the after-validator.

A raw payload is a parsed JSON object. A scalar keeps what the validators read of
it: a text, or the text `str` gives and whether it counts as true. Items of a list
that are not mappings are `none`. The block mesh has no before-validator and
passes through as its own checked document.
-/
import OpenFoamAgent.Library.Repetitions
import OpenFoamAgent.Library.Dict
import OpenFoamAgent.Schemas.Plan

namespace OpenFoamAgent
namespace Schemas

open Python Repetitions

/-! ### Raw payloads -/

/-- A scalar of a raw payload. -/
inductive RawValue where
  | null
  | text (t : Text)
  | other (str : Text) (truthy : Bool)
  deriving DecidableEq

namespace RawValue

/-- `str(value)`. -/
def str : RawValue → Text
  | null => "None".toList
  | text t => t
  | other s _ => s

/-- `bool(value)`. -/
def truthy : RawValue → Bool
  | null => false
  | text t => !t.isEmpty
  | other _ b => b

/-- `str(value or "")`. -/
def strOrEmpty (v : RawValue) : Text := if v.truthy then v.str else []

/-- A field of type `str`. -/
def asText : RawValue → Option Text
  | text t => some t
  | _ => none

/-- A field of type `str | None`. -/
def asTextOrNone : RawValue → Option (Option Text)
  | null => some none
  | text t => some (some t)
  | other .. => none

end RawValue

/-- An entry of `files`. -/
structure RawFile where
  path : RawValue
  content : RawValue
  deriving DecidableEq

/-- An entry of a typed dictionary. -/
structure RawEntry where
  path : RawValue
  value : RawValue
  deriving DecidableEq

/-- An entry of `typed_dictionaries`. The conflicts are the texts `str` gives of them. -/
structure RawTyped where
  path : RawValue
  foamClass : RawValue := .null
  entries : List (Option RawEntry)
  entryConflicts : List Text := []
  deriving DecidableEq

/-- An entry of `native_pipeline`. -/
structure RawCommand where
  command : RawValue := .text []
  arguments : List RawValue := []
  role : RawValue := .text "utility".toList
  rationale : RawValue := .text []
  deriving DecidableEq

/-- A structured block mesh that passed its own checks. -/
abbrev BlockMesh := Document

/-- `TypedBlockMeshFile.path`. -/
def blockMeshPath : Text := "system/blockMeshDict".toList

/-- The payload of a `CaseAuthoringAction`. The lists of hints and conflicts are the texts
`str` gives of their items. -/
structure AuthoringPayload where
  taskId : Option Text := none
  deferNative : Bool := false
  goal : Text
  files : List (Option RawFile) := []
  typedDictionaries : List (Option RawTyped) := []
  blockMesh : Option BlockMesh := none
  validateDictionaries : List Text := []
  surfaceChecks : List Text := []
  meshCommands : List Text := []
  nativePipeline : List (Option RawCommand) := []
  requiredCaseFiles : List Text := []
  rationale : Text := []
  authoringConflicts : List Text := []
  deriving DecidableEq

/-! ### The before-validators -/

/-- The bound on the conflicts a record carries. -/
def conflictLimit : ℕ := 40

/-- `str(x).strip()` is not empty. -/
def nonBlank (t : Text) : Bool := !(strip t).isEmpty

/-- `str(mapping.get("path") or "").strip()` of a mapping. -/
def RawFile.key (f : RawFile) : Text := strip f.path.strOrEmpty

def RawEntry.key (e : RawEntry) : Text := strip e.path.strOrEmpty

def RawTyped.key (d : RawTyped) : Text := strip d.path.strOrEmpty

/-- `_canonical_typed_value_for_duplicate_check`. -/
def canonicalTypedValue (value : Text) : Text :=
  let text := strip value
  if text.getLast? = some ';' then text.dropLast.rdropWhile isSpace else text

/-- A token, for a path that is not empty. -/
def tokenOf (kind : String) (path : Text) : Option Text :=
  if path = [] then none else some (kind.toList ++ path)

/-- `TypedFoamDictionaryFile.normalize_duplicate_entries`, before the cut. -/
def RawTyped.walkEntries (d : RawTyped) : List (Option RawEntry) × List Text :=
  keepFirst (Option.map RawEntry.key) (fun e => (e.map fun e => canonicalTypedValue e.value.strOrEmpty))
    (tokenOf "") (d.entryConflicts.filter nonBlank) d.entries

/-- `TypedFoamDictionaryFile.normalize_duplicate_entries`. -/
def RawTyped.normalizeDuplicateEntries (d : RawTyped) : RawTyped :=
  { d with
    entries := d.walkEntries.1
    entryConflicts := d.walkEntries.2.take conflictLimit }

/-- The loop over `files`. -/
def walkFiles (log : List Text) (files : List (Option RawFile)) :
    List (Option RawFile) × List Text :=
  keepFirst (Option.map RawFile.key) (Option.map fun f => f.content.strOrEmpty)
    (tokenOf "raw-file:") log files

/-- What a repeated typed dictionary adds to the first one of its path. -/
def RawTyped.merge (prior next : RawTyped) : RawTyped :=
  { prior with
    foamClass := if !prior.foamClass.truthy && next.foamClass.truthy then next.foamClass
      else prior.foamClass
    entries := prior.entries ++ next.entries
    entryConflicts := prior.entryConflicts ++ next.entryConflicts }

/-- Two dictionaries name different classes. -/
def RawTyped.classesDiffer (prior next : RawTyped) : Bool :=
  prior.foamClass.truthy && next.foamClass.truthy && prior.foamClass != next.foamClass

/-- The state of the loop over `typed_dictionaries`. -/
structure TypedWalk where
  byPath : Dict Text RawTyped := ∅
  order : List Text := []
  passthrough : List (Option RawTyped) := []
  log : List Text

/-- One item of the loop over `typed_dictionaries`. -/
def TypedWalk.step (walk : TypedWalk) : Option RawTyped → TypedWalk
  | none => { walk with passthrough := walk.passthrough ++ [none] }
  | some d =>
    match if d.key = [] then none else walk.byPath.get d.key with
    | none =>
      { walk with
        byPath := walk.byPath.insert d.key d
        order := walk.order ++ [d.key] }
    | some prior =>
      { walk with
        byPath := walk.byPath.insert d.key (prior.merge d)
        log := if prior.classesDiffer d then note walk.log ("typed-class:".toList ++ d.key)
          else walk.log }

/-- The loop over `typed_dictionaries`. -/
def walkTyped (log : List Text) (typed : List (Option RawTyped)) : TypedWalk :=
  typed.foldl TypedWalk.step { log }

/-- `[typed_by_path[path] for path in typed_order] + passthrough_typed`. -/
def TypedWalk.result (walk : TypedWalk) : List (Option RawTyped) :=
  walk.order.map walk.byPath.get ++ walk.passthrough

/-- The path of a typed item, empty for an item that is not a mapping. -/
def typedPath (item : Option RawTyped) : Text := (item.map RawTyped.key).getD []

/-- The order in which the interpreter walks a set of texts. -/
structure SetOrder where
  list : List Text → List Text
  perm : ∀ l, (list l).Perm l

theorem perm_listed (l : List Text) : (id l).Perm l := .refl l

/-- Walking a set in the order its elements are listed. -/
def SetOrder.listed : SetOrder := ⟨id, perm_listed⟩

/-- `list(dict.fromkeys(items))`. -/
def fromKeys (items : List Text) : List Text := noteAll [] items

/-- `item.get("command")` is the given command. -/
def isCommand (name : String) (item : Option RawCommand) : Bool :=
  item.any fun c => c.command == .text name.toList

/-- The token by which two native invocations are compared. -/
def RawCommand.token (c : RawCommand) : Text × List Text × Text :=
  (c.command.str, c.arguments.map RawValue.str, c.role.str)

/-- `unique`, with the checks moved to its end. -/
def orderPipeline (pipeline : List (Option RawCommand)) : List (Option RawCommand) :=
  let unique := (keepFirst (Option.map RawCommand.token) (fun _ => ())
    (fun _ => (none : Option Text)) [] pipeline).1
  unique.filter (fun item => !isCommand "checkMesh" item) ++
    unique.filter (isCommand "checkMesh")

/-- `[x for x in commands if x != last] + [last]`, where `last` is one of the commands. -/
def moveLast (last : Text) (commands : List Text) : List Text :=
  if last ∈ commands then commands.filter (· != last) ++ [last] else commands

namespace AuthoringPayload

/-- The conflicts carried by the payload itself. -/
def carried (p : AuthoringPayload) : List Text := p.authoringConflicts.filter nonBlank

/-- The paths named by both a raw file and a typed dictionary. -/
def mixedPaths (p : AuthoringPayload) : List Text :=
  (p.files.filterMap (Option.map RawFile.key)).dedup.filter fun path =>
    path ∈ (walkTyped [] p.typedDictionaries).result.map typedPath

variable (order : SetOrder) (p : AuthoringPayload)

/-- The typed dictionaries, merged by path, after the conflicts of the raw files. -/
def mergedTyped : TypedWalk := walkTyped (walkFiles p.carried p.files).2 p.typedDictionaries

/-- The conflicts of the payload, before the cut. -/
def conflictLog : List Text :=
  noteAll p.mergedTyped.log ((order.list p.mixedPaths).filterMap (tokenOf "mixed-representation:"))

/-- The native commands of the payload: the pipeline and the older command list. -/
def nativeHints : List (Option RawCommand) × List Text :=
  let commands := (fromKeys (p.meshCommands.filter nonBlank)).filter (· != "foamDictionary".toList)
  let pipeline := p.nativePipeline.filter fun item => !isCommand "foamDictionary" item
  if p.deferNative then ([], [])
  else if pipeline.isEmpty then ([], moveLast "checkMesh".toList commands)
  else (orderPipeline pipeline, [])

/-- `CaseAuthoringAction.normalize_authoring_mirrors`. -/
def normalizeAuthoringMirrors : AuthoringPayload :=
  { p with
    files := (walkFiles p.carried p.files).1
    typedDictionaries := p.mergedTyped.result.filter fun item => !(typedPath item ∈ p.mixedPaths)
    validateDictionaries := fromKeys (p.validateDictionaries.filter nonBlank)
    surfaceChecks := fromKeys (p.surfaceChecks.filter nonBlank)
    meshCommands := p.nativeHints.2
    nativePipeline := p.nativeHints.1
    requiredCaseFiles := fromKeys (p.requiredCaseFiles.filter nonBlank)
    authoringConflicts := (p.conflictLog order).take conflictLimit }

end AuthoringPayload

/-! ### The checked models -/

/-- A path of word characters, dots, slashes and dashes below one of the given roots, without
`..` (the pattern of the path checks). -/
def isFilePath (roots : List String) (path : Text) : Bool :=
  !contains "..".toList path && roots.any fun root =>
    match path.dropPrefix? (root.toList ++ ['/']) with
    | none => false
    | some rest => !rest.isEmpty && rest.all fun c => isAsciiWord c || c ∈ ['.', '/', '-']

def caseRoots : List String := ["0", "constant", "system"]

/-- A length between two bounds. -/
def lengthIn {α : Type} (low high : ℕ) (l : List α) : Bool := low ≤ l.length && l.length ≤ high

/-- A word that starts with a character of one class and goes on in another. -/
def isWord (first rest : Char → Bool) : Text → Bool
  | [] => false
  | c :: cs => first c && cs.all rest

/-- `CaseBundleFile`. -/
structure CaseBundleFile where
  path : Text
  content : Text
  deriving DecidableEq

/-- `CaseBundleFile.model_validate`. -/
def CaseBundleFile.ofRaw (raw : Option RawFile) : Option CaseBundleFile := do
  let raw ← raw
  let path ← raw.path.asText
  let content ← raw.content.asText
  guard (lengthIn 1 240 path && lengthIn 1 1000000 content && isFilePath caseRoots path)
  return { path, content }

/-- `FoamDictionaryEntry`. -/
structure FoamDictionaryEntry where
  path : Text
  value : Text
  deriving DecidableEq

/-- `[A-Za-z_][A-Za-z0-9_:+-]*(?:\.[A-Za-z_][A-Za-z0-9_:+-]*)*`. -/
def isEntryPath (path : Text) : Bool :=
  (path.splitOn '.').all <| isWord (fun c => isAsciiLetter c || c == '_')
    (fun c => isAsciiWord c || c ∈ [':', '+', '-'])

/-- `FoamDictionaryEntry.model_validate`. -/
def FoamDictionaryEntry.ofRaw (raw : Option RawEntry) : Option FoamDictionaryEntry := do
  let raw ← raw
  let path ← raw.path.asText
  let value ← raw.value.asText
  guard (lengthIn 1 300 path && isEntryPath path && lengthIn 1 20000 value)
  return { path, value }

/-- `TypedFoamDictionaryFile`. -/
structure TypedFoamDictionaryFile where
  path : Text
  foamClass : Option Text := none
  entries : List FoamDictionaryEntry
  entryConflicts : List Text := []
  deriving DecidableEq

/-- `[A-Za-z][A-Za-z0-9_]*`. -/
def isClassName : Text → Bool := isWord isAsciiLetter isAsciiWord

/-- `TypedFoamDictionaryFile.model_validate`, after its before-validator. -/
def TypedFoamDictionaryFile.ofFields (raw : RawTyped) : Option TypedFoamDictionaryFile := do
  let path ← raw.path.asText
  let foamClass ← raw.foamClass.asTextOrNone
  let entries ← raw.entries.mapM FoamDictionaryEntry.ofRaw
  guard (lengthIn 1 240 path && foamClass.all (fun name => lengthIn 1 80 name && isClassName name) &&
    lengthIn 1 300 entries && isFilePath (caseRoots ++ ["postprocessConfig"]) path)
  return { path, foamClass, entries, entryConflicts := raw.entryConflicts }

/-- `TypedFoamDictionaryFile.model_validate`. -/
def TypedFoamDictionaryFile.ofRaw (raw : Option RawTyped) : Option TypedFoamDictionaryFile := do
  let raw ← raw
  ofFields raw.normalizeDuplicateEntries

/-- `NativeOpenFOAMCommand.role`. -/
inductive NativeRole where
  | preprocess | mesh | meshValidation | initialization | utility
  deriving DecidableEq

namespace NativeRole

/-- The text of a role. -/
def text : NativeRole → Text
  | preprocess => "preprocess".toList
  | mesh => "mesh".toList
  | meshValidation => "mesh_validation".toList
  | initialization => "initialization".toList
  | utility => "utility".toList

def all : List NativeRole := [preprocess, mesh, meshValidation, initialization, utility]

/-- The role a text names. -/
def ofText (t : Text) : Option NativeRole := all.find? fun role => role.text = t

theorem ofText_text (role : NativeRole) : ofText role.text = some role := by
  cases role <;> rfl

theorem text_of_ofText {t : Text} {role : NativeRole} (h : ofText t = some role) :
    role.text = t := by
  simpa using List.find?_some h

end NativeRole

/-- `NativeOpenFOAMCommand`. -/
structure NativeOpenFOAMCommand where
  command : Text
  arguments : List Text := []
  role : NativeRole := .utility
  rationale : Text := []
  deriving DecidableEq

/-- `[A-Za-z][A-Za-z0-9_.+-]*`. -/
def isCommandName : Text → Bool :=
  isWord isAsciiLetter fun c => isAsciiWord c || c ∈ ['.', '+', '-']

/-- The check of `validate_arguments` on one argument. -/
def isArgument (arg : Text) : Bool :=
  lengthIn 1 1000 arg && arg.all (fun c => c ∉ [Char.ofNat 0, '\n', '\r']) &&
    !("..".toList ∈ arg.splitOnP fun c => c == '/' || c == '\\')

/-- `NativeOpenFOAMCommand.model_validate`. -/
def NativeOpenFOAMCommand.ofRaw (raw : Option RawCommand) : Option NativeOpenFOAMCommand := do
  let raw ← raw
  let command ← raw.command.asText
  let arguments ← raw.arguments.mapM RawValue.asText
  let role ← NativeRole.ofText (← raw.role.asText)
  let rationale ← raw.rationale.asText
  guard (lengthIn 0 160 command && isCommandName command && lengthIn 0 24 arguments &&
    lengthIn 0 240 rationale && arguments.all isArgument)
  return { command, arguments, role, rationale }

/-- `CaseAuthoringAction`. -/
structure CaseAuthoringAction where
  taskId : Option Text := none
  deferNative : Bool := false
  goal : Text
  files : List CaseBundleFile := []
  typedDictionaries : List TypedFoamDictionaryFile := []
  blockMesh : Option BlockMesh := none
  validateDictionaries : List Text := []
  surfaceChecks : List Text := []
  meshCommands : List Text := []
  nativePipeline : List NativeOpenFOAMCommand := []
  requiredCaseFiles : List Text := []
  rationale : Text := []
  authoringConflicts : List Text := []
  deriving DecidableEq

/-- The region of a `checkMesh` invocation. -/
def checkRegion (command : NativeOpenFOAMCommand) : Text :=
  let args := command.arguments
  args.getD (args.idxOf "-region".toList + 1) []

namespace CaseAuthoringAction

/-- The paths of the files of the action, in the order of the after-validator. -/
def paths (a : CaseAuthoringAction) : List Text :=
  a.files.map (·.path) ++ a.typedDictionaries.map (·.path) ++
    a.blockMesh.toList.map fun _ => blockMeshPath

/-- `CaseAuthoringAction.validate_case_authoring`; `execute` says that the action is an
`execute_case_plan`. -/
def validateCaseAuthoring (execute : Bool) (a : CaseAuthoringAction) : Bool :=
  !a.paths.isEmpty && a.paths.Nodup &&
    [a.validateDictionaries, a.surfaceChecks, a.requiredCaseFiles].all (fun paths =>
      paths.Nodup && paths.all (isFilePath caseRoots)) &&
    a.typedDictionaries.all (fun d => d.path != blockMeshPath) &&
    a.meshCommands.all isCommandName &&
    (a.nativePipeline.isEmpty || a.meshCommands.isEmpty) &&
    if a.deferNative then
      !execute && a.taskId.any (fun task => !task.isEmpty) && a.nativePipeline.isEmpty &&
        a.meshCommands.isEmpty
    else
      ((a.nativePipeline.filter fun c => c.command = "checkMesh".toList).map checkRegion).Nodup

/-- The field checks of `CaseAuthoringAction`, after its before-validator. -/
def ofFields (raw : AuthoringPayload) : Option CaseAuthoringAction := do
  let files ← raw.files.mapM CaseBundleFile.ofRaw
  let typedDictionaries ← raw.typedDictionaries.mapM TypedFoamDictionaryFile.ofRaw
  let nativePipeline ← raw.nativePipeline.mapM NativeOpenFOAMCommand.ofRaw
  guard (lengthIn 1 1000 raw.goal && lengthIn 0 80 files && lengthIn 0 80 typedDictionaries &&
    lengthIn 0 40 raw.validateDictionaries && lengthIn 0 16 raw.surfaceChecks &&
    lengthIn 0 12 raw.meshCommands && lengthIn 0 20 nativePipeline &&
    lengthIn 0 80 raw.requiredCaseFiles && lengthIn 0 200 raw.rationale)
  return {
    taskId := raw.taskId
    deferNative := raw.deferNative
    goal := raw.goal
    files, typedDictionaries, nativePipeline
    blockMesh := raw.blockMesh
    validateDictionaries := raw.validateDictionaries
    surfaceChecks := raw.surfaceChecks
    meshCommands := raw.meshCommands
    requiredCaseFiles := raw.requiredCaseFiles
    rationale := raw.rationale
    authoringConflicts := raw.authoringConflicts }

/-- `CaseAuthoringAction.model_validate`, and the part of `ExecuteCasePlanAction.model_validate`
it shares with it. -/
def modelValidate (order : SetOrder) (execute : Bool) (raw : AuthoringPayload) :
    Option CaseAuthoringAction := do
  let a ← ofFields (raw.normalizeAuthoringMirrors order)
  guard (a.validateCaseAuthoring execute)
  return a

end CaseAuthoringAction

/-! ### Dumps -/

def CaseBundleFile.modelDump (f : CaseBundleFile) : RawFile :=
  { path := .text f.path, content := .text f.content }

def FoamDictionaryEntry.modelDump (e : FoamDictionaryEntry) : RawEntry :=
  { path := .text e.path, value := .text e.value }

def TypedFoamDictionaryFile.modelDump (d : TypedFoamDictionaryFile) : RawTyped :=
  { path := .text d.path
    foamClass := d.foamClass.elim .null .text
    entries := d.entries.map fun e => some e.modelDump
    entryConflicts := d.entryConflicts }

def NativeOpenFOAMCommand.modelDump (c : NativeOpenFOAMCommand) : RawCommand :=
  { command := .text c.command
    arguments := c.arguments.map .text
    role := .text c.role.text
    rationale := .text c.rationale }

/-- `CaseAuthoringAction.model_dump`. -/
def CaseAuthoringAction.modelDump (a : CaseAuthoringAction) : AuthoringPayload :=
  { taskId := a.taskId
    deferNative := a.deferNative
    goal := a.goal
    files := a.files.map fun f => some f.modelDump
    typedDictionaries := a.typedDictionaries.map fun d => some d.modelDump
    blockMesh := a.blockMesh
    validateDictionaries := a.validateDictionaries
    surfaceChecks := a.surfaceChecks
    meshCommands := a.meshCommands
    nativePipeline := a.nativePipeline.map fun c => some c.modelDump
    requiredCaseFiles := a.requiredCaseFiles
    rationale := a.rationale
    authoringConflicts := a.authoringConflicts }

end Schemas
end OpenFoamAgent
