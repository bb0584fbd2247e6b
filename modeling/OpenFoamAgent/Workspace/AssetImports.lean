/-
# The import of user assets

`AssetRegistry` and `ingest_request_assets` of `tools/assets.py`: the files a user names are copied
into the case, and a registry beside the case records each copy.

An import changes the tree and the registry in separate steps, so it is computed as its steps: the
directories above the copy, a temporary file next to it that is written piece by piece, the copy,
and the registry. What the host is asked (its files, absolute paths, the name of a temporary file)
and what `basic_quality` makes of a file are arguments. The files of the user do not change.
-/
import OpenFoamAgent.Library.TreeSteps
import OpenFoamAgent.Python.Float
import OpenFoamAgent.Workspace.Seal

namespace OpenFoamAgent
namespace Workspace

open Python Schemas FileTree

/-! ### Records -/

/-- A row of `public_summary`. -/
structure AssetSummary where
  sourceSha256 : Digest
  casePath : Text
  copySha256 : Digest
  sizeBytes : ℕ
  units : Option Text := none
  coordinateFrame : Option Text := none
  regionNames : List Text := []
  bindings : List Document := []
  quality : Document
  deriving DecidableEq

/-- A record of the registry. -/
structure AssetRecord extends AssetSummary where
  sourcePath : Location
  deriving DecidableEq

/-- What stands at `asset-registry.json`. -/
inductive RegistryFile where
  | absent
  | symlink
  | records (rows : List AssetRecord)
  deriving DecidableEq

/-- The records in the file. -/
def RegistryFile.rows : RegistryFile → List AssetRecord
  | .records rows => rows
  | _ => []

/-- The exceptions of an import. -/
inductive AssetError where
  /-- `Asset registry may not be a symlink.` -/
  | registrySymlink
  /-- `Previously registered asset copy changed.` -/
  | copyChanged
  /-- `Asset sources must not contain symlink components.` -/
  | sourceSymlink
  /-- `Asset source is not a regular file.` -/
  | irregularSource
  /-- `Asset source was not explicitly authorized by the user.` -/
  | unauthorized
  /-- `Asset exceeds the configured input size limit.` -/
  | tooLarge
  /-- `Asset identity changed; explicit replacement/fork is required.` -/
  | identityChanged
  /-- `Asset import refuses to overwrite an existing case input.` -/
  | overwrite
  /-- An exception of `basic_quality`. -/
  | quality (message : Text)
  /-- `Imported dictionary exceeds text-policy inspection limit.` -/
  | uninspectable
  /-- The source is no UTF-8 text. -/
  | undecodable
  | content (e : ContentError)
  /-- `Asset would exceed the total input byte limit.` -/
  | inputLimit
  /-- `Asset changed during import.` -/
  | changed
  /-- `Existing case import requires an explicitly authorized directory.` -/
  | caseUnauthorized
  /-- `Case import rejects symlink trees.` -/
  | caseSymlink
  /-- `Case import exceeds input file-count limit.` -/
  | caseTooManyFiles
  /-- `No case inputs were found under 0/constant/system.` -/
  | caseEmpty
  | check (e : CheckError)
  | sealing (e : SealError)
  | os (e : FsError)
  deriving DecidableEq

/-! ### The host -/

/-- What an import asks the host. -/
structure AssetHost where
  /-- `\b` of the content policy. -/
  wordChar : Char → Bool
  /-- The files of the host. -/
  sources : FileTree Text Bytes
  /-- `Path(text).expanduser().absolute()` -/
  absolute : Text → Location
  /-- `basic_quality`, of the name of a file and its content. -/
  basicQuality : Text → Bytes → Except Text Document
  /-- The name of `mkstemp(prefix=".asset-")` next to a target: new, and not the target's. -/
  temporaryName : FileTree Text Bytes → Location → Text
  temporary_new : ∀ (t : FileTree Text Bytes) l, t.lookup (l.dropLast ++ [temporaryName t l]) = none
  temporary_ne : ∀ t l, l.dropLast ++ [temporaryName t l] ≠ l

/-- The fields of `user_request` that are read. -/
structure AssetRequest where
  geometryFiles : List Text
  additionalFiles : List Text
  existingCase : Option Text
  deriving DecidableEq

/-- A file to import, and its place among the inputs of the case. -/
structure Requested where
  source : Location
  place : Location
  under : underExecutionInput place
  deriving DecidableEq

/-- `case_path` -/
def Requested.casePath (q : Requested) : Text := asPosix q.place

/-- The workspace and the file of its registry. -/
structure AssetRun where
  workspace : CaseWorkspace
  registry : RegistryFile

/-- `Path(text).name` -/
def fileName (text : Text) : Text := (pathParts text).getLastD []

/-- `Path(name).suffix` -/
def suffix (name : Text) : Text :=
  let stem := name.reverse.dropWhile (· != '.')
  let extension := name.reverse.takeWhile (· != '.')
  if stem.length ≤ 1 ∨ extension = [] then [] else '.' :: extension.reverse

/-- The suffixes whose files are no dictionaries. -/
def assetSuffixes : List Text :=
  [".stl", ".obj", ".off", ".ply", ".csv", ".dat", ".table", ".emesh"].map String.toList

/-- `max_asset_bytes` -/
def maxAssetBytes : ℕ := 256 * 1024 * 1024

namespace AssetRun

variable (host : AssetHost)

/-! ### One file -/

/-- `_regular_source`, with the content of the file. -/
def regularSource (path : Location) : Except AssetError Bytes :=
  if host.sources.linkOnPath path then .error .sourceSymlink
  else
    match host.sources.fileAt path with
    | none => .error .irregularSource
    | some content => .ok content

/-- The executable-content policy, for a file that is a dictionary. -/
def inspectSource (w : CaseWorkspace) (name : Text) (content : Bytes) : Except AssetError Unit :=
  if (suffix name).map asciiLower ∈ assetSuffixes then .ok ()
  else if content.length > w.maxFileBytes then .error .uninspectable
  else
    match decode content with
    | none => .error .undecodable
    | some text =>
      match validateContent host.wordChar w.allowedLibraries (universalNewlines text) with
      | .error e => .error (.content e)
      | .ok () => .ok ()

/-- The checks of `import_file` on a file that has no record: its quality. -/
def checkNew (q : Requested) (content : Bytes) (target : Location) (w : CaseWorkspace) :
    Except AssetError Document :=
  if (w.tree.lookup target).isSome then .error .overwrite
  else
    match host.basicQuality (q.source.getLastD []) content with
    | .error message => .error (.quality message)
    | .ok quality =>
      match inspectSource host w (q.source.getLastD []) content with
      | .error e => .error e
      | .ok () =>
        match w.executionFileSeals with
        | .error e => .error (.sealing e)
        | .ok files =>
          if (files.map (·.sizeBytes)).sum + content.length > w.maxExecutionBytes then
            .error .inputLimit
          else .ok quality

/-- The tree of the workspace is another. -/
def withTree (s : AssetRun) (tree : FileTree Text Bytes) : AssetRun :=
  { s with workspace := { s.workspace with tree } }

/-- `os.replace(temporary, target)` -/
def replace (tree : FileTree Text Bytes) (temporary target : Location) :
    Except FsError (FileTree Text Bytes) :=
  if tree.isDirectory target then .error .isDirectory
  else
    match tree.lookup temporary with
    | none => .error .notFound
    | some n => .ok ((tree.erase temporary).insert target n)

/-- The temporary file, and the copy that it becomes. -/
def placeCopy (temporary target : Location) (content : Bytes) (s : AssetRun) :
    Steps AssetRun AssetError (FileTree Text Bytes) :=
  (writeSteps s.withTree temporary content s.workspace.tree).andThen s fun s tree =>
    if (tree.fileAt temporary).map Sha256.mk ≠ some ⟨content⟩ then
      Steps.after (s.withTree (tree.erase temporary)) (.raised .changed)
    else
      match replace tree temporary target with
      | .error e => Steps.after (s.withTree (tree.erase temporary)) (.raised (.os e))
      | .ok tree => Steps.after (s.withTree tree) (.returned tree)

/-- The copy of a source, with the directories above it. -/
def copySource (content : Bytes) (target : Location) (s : AssetRun) :
    Steps AssetRun AssetError (FileTree Text Bytes) :=
  (makeDirectorySteps s.withTree .os (parents target) s.workspace.tree).andThen s fun s tree =>
    placeCopy (target.dropLast ++ [host.temporaryName tree target]) target content s

/-- The record of an import. -/
def recordOf (q : Requested) (content : Bytes) (quality : Document) : AssetRecord where
  sourceSha256 := ⟨content⟩
  casePath := q.casePath
  copySha256 := ⟨content⟩
  sizeBytes := content.length
  quality := quality
  sourcePath := q.source

/-- `workspace._asset_paths.add(case_path)` -/
def protect (s : AssetRun) (casePath : Text) : AssetRun :=
  { s with workspace := { s.workspace with assetPaths := s.workspace.assetPaths.add casePath } }

/-- `_save` -/
def save (s : AssetRun) (records : List AssetRecord) : AssetRun :=
  { s with registry := .records records }

/-- `import_file`, with the records it leaves. -/
def importFile (approved : List Location) (q : Requested) (records : List AssetRecord)
    (s : AssetRun) : Steps AssetRun AssetError (List AssetRecord) :=
  match regularSource host q.source with
  | .error e => .raised e
  | .ok content =>
    if q.source ∉ approved then .raised .unauthorized
    else if content.length > maxAssetBytes then .raised .tooLarge
    else
      match s.workspace.resolveCasePath q.casePath false with
      | .error e => .raised (.check e)
      | .ok target =>
        match records.find? (·.casePath = q.casePath) with
        | some record =>
          if record.sourceSha256 ≠ ⟨content⟩ then .raised .identityChanged
          else
            match s.workspace.tree.fileAt target with
            | none => .raised (.os .notFound)
            | some copy =>
              if record.copySha256 ≠ ⟨copy⟩ then .raised .identityChanged
              else .returned records
        | none =>
          match checkNew host q content target s.workspace with
          | .error e => .raised e
          | .ok quality =>
            (copySource host content target s).andThen s fun s _ =>
              let records := records ++ [recordOf q content quality]
              Steps.after (s.protect q.casePath)
                (Steps.after ((s.protect q.casePath).save records) (.returned records))

/-! ### A request -/

/-- The loop of the constructor over the records. -/
def adoptRecords : List AssetRecord → AssetRun → Steps AssetRun AssetError Unit
  | [], _ => .returned ()
  | record :: records, s =>
    match s.workspace.resolveCasePath record.casePath true with
    | .error e => .raised (.check e)
    | .ok target =>
      if (⟨(s.workspace.tree.fileAt target).getD []⟩ : Digest) ≠ record.copySha256 then
        .raised .copyChanged
      else (adoptRecords records (s.protect record.casePath)).after (s.protect record.casePath)

/-- `AssetRegistry(workspace)`, with its records. -/
def openRegistry (s : AssetRun) : Steps AssetRun AssetError (List AssetRecord) :=
  match s.registry with
  | .absent => .returned []
  | .symlink => .raised .registrySymlink
  | .records rows => (adoptRecords rows s).andThen s fun _ _ => .returned rows

/-- The loop over files of one kind. -/
def importFiles (approved : List Location) :
    List Requested → List AssetRecord → AssetRun → Steps AssetRun AssetError (List AssetRecord)
  | [], records, _ => .returned records
  | q :: qs, records, s =>
    (importFile host approved q records s).andThen s fun s records =>
      importFiles approved qs records s

/-- A file of the user below a directory of the case. -/
def requestedBelow (directory : Text) (text : Text) : Requested where
  source := host.absolute text
  place := ["constant".toList, directory, fileName text]
  under := rfl

/-- The paths of one input directory of a case, in order. -/
def treePaths (root : Location) (name : Text) : List Location :=
  ((host.sources.keys.filter fun l => (root ++ [name]).isPrefixOf l && l.length > root.length + 1).map
    fun l => l.drop root.length).insertionSort (· ≤ ·)

/-- The loop over the paths of one input directory. -/
def collectFiles (root : Location) (maxFiles : ℕ) :
    List Location → List Location → Except AssetError (List Location)
  | [], files => .ok files
  | l :: ls, files =>
    if host.sources.isLink (root ++ l) then .error .caseSymlink
    else
      let files := if host.sources.isFile (root ++ l) then files ++ [l] else files
      if files.length > maxFiles then .error .caseTooManyFiles
      else collectFiles root maxFiles ls files

/-- The loop over the input directories. -/
def collectCase (root : Location) (maxFiles : ℕ) :
    List Text → List Location → Except AssetError (List Location)
  | [], files => .ok files
  | name :: names, files =>
    if host.sources.isLink (root ++ [name]) then .error .caseSymlink
    else
      match collectFiles host root maxFiles (treePaths host root name) files with
      | .error e => .error e
      | .ok files => collectCase root maxFiles names files

/-- The files of a case that is imported. -/
def caseFiles (maxFiles : ℕ) (root : Location) : Except AssetError (List Location) :=
  if host.sources.isLink root ∨ ¬ host.sources.isDirectory root then .error .caseUnauthorized
  else
    match collectCase host root maxFiles executionInputTopLevel [] with
    | .error e => .error e
    | .ok [] => .error .caseEmpty
    | .ok files => .ok files

/-- The files of a case as requests; all of them lie below its input directories. -/
def requestedCase (root : Location) (files : List Location) : List Requested :=
  files.filterMap fun l => if h : underExecutionInput l then some ⟨root ++ l, l, h⟩ else none

/-- `import_case_tree`, in a workspace for so many files. -/
def importCaseTree (maxFiles : ℕ) (text : Text) (records : List AssetRecord) (s : AssetRun) :
    Steps AssetRun AssetError (List AssetRecord) :=
  match caseFiles host maxFiles (host.absolute text) with
  | .error e => .raised e
  | .ok files =>
    let requested := requestedCase (host.absolute text) files
    importFiles host (requested.map (·.source)) requested records s

/-- `public_summary` -/
def publicSummary (records : List AssetRecord) : List AssetSummary :=
  records.map (·.toAssetSummary)

/-- The files of `request.geometry_files`. -/
def geometryFiles (request : AssetRequest) : List Requested :=
  request.geometryFiles.map (requestedBelow host "triSurface".toList)

/-- The files of `request.additional_files`. -/
def additionalFiles (request : AssetRequest) : List Requested :=
  request.additionalFiles.map (requestedBelow host "inputData".toList)

/-- `ingest_request_assets`, with `state.assets`. -/
def ingestRequestAssets (request : AssetRequest) (s : AssetRun) :
    Steps AssetRun AssetError (List AssetSummary) :=
  let maxFiles := s.workspace.maxExecutionFiles
  let geometry := geometryFiles host request
  let additional := additionalFiles host request
  (openRegistry s).andThen s fun s records =>
    (importFiles host (geometry.map (·.source)) geometry records s).andThen s fun s records =>
      (importFiles host (additional.map (·.source)) additional records s).andThen s fun s records =>
        match request.existingCase with
        | none | some [] => .returned (publicSummary records)
        | some text =>
          (importCaseTree host maxFiles text records s).andThen s fun _ records =>
            .returned (publicSummary records)

end AssetRun
end Workspace
end OpenFoamAgent
