/-
# Case seals

`execution_file_seals`, `validate_all_content`, `seal` and `verify_seal` of
`tools/workspace.py`: the digest of every file below `0/`, `constant/` and
`system/`, whoever wrote it.

A seal records a file under the `as_posix()` text of its place, so a path text
with a double slash or a `.` component is the key of no sealed file.
-/
import Mathlib.Data.List.Sort
import OpenFoamAgent.Library.Dict
import OpenFoamAgent.Library.Traversal
import OpenFoamAgent.Workspace.Case

namespace OpenFoamAgent
namespace Workspace

open Python Schemas

/-- The exceptions of sealing and of the verification of a seal. -/
inductive SealError where
  | check (e : CheckError)
  /-- `Execution input must not be a symlink: {path}` -/
  | symlink (l : Location)
  /-- `Case has {n} execution input files; limit is {limit}.` -/
  | tooManyFiles (n : ℕ)
  /-- `Case execution inputs exceed {limit} byte limit.` -/
  | tooLarge
  | path (e : PathError)
  /-- `CaseFileSeal.path` holds at most 240 characters. -/
  | pathTooLong (path : Text)
  /-- `Cannot seal an empty case workspace.` -/
  | emptyWorkspace
  /-- The failures of `validate_all_content`, joined. -/
  | content (failures : List (Text × Option ContentError))
  /-- `Agent-authored case exceeds {limit} byte limit.` -/
  | totalSize
  /-- `Engineering plan changed after approval/sealing.` -/
  | planChanged
  /-- `Pre-solve execution input file set changed after sealing.` -/
  | fileSetChanged
  /-- `Sealed execution input changed: {path}` -/
  | fileChanged (path : Text)
  /-- `Execution input origin changed: {path}` -/
  | originChanged (path : Text)
  /-- `Case execution-input manifest changed after sealing.` -/
  | manifestChanged
  deriving DecidableEq

/-- The place lies strictly below `0/`, `constant/` or `system/`. -/
def underExecutionInput (l : Location) : Bool :=
  match l with
  | top :: _ :: _ => top ∈ executionInputTopLevel
  | _ => false

/-- `_seal_manifest_digest`: the digest of the records sorted by path. -/
def sealManifestDigest (files : List CaseFileSeal) : Sha256 (List CaseFileSeal) :=
  ⟨files.insertionSort fun a b => a.path ≤ b.path⟩

namespace CaseWorkspace

variable (host : Host) (w : CaseWorkspace)

/-- The origin a seal gives to the file of a path text. -/
def fileOrigin (relative : Text) : FileOrigin :=
  if relative ∈ w.assetPaths then .userAsset
  else if relative ∈ w.authoredPaths then .agent
  else .native

/-- The seal of one execution input. -/
def sealFile (l : Location) : Except SealError CaseFileSeal :=
  match validateRelative (asPosix l) with
  | .error e => .error (.path e)
  | .ok _ =>
    if (asPosix l).length > 240 then .error (.pathTooLong (asPosix l))
    else
      let data := (w.tree.fileAt l).getD []
      .ok ⟨asPosix l, ⟨data⟩, data.length, w.fileOrigin (asPosix l)⟩

/-- The files below the execution inputs, sorted. -/
def executionInputs : List Location :=
  (w.tree.keys.filter fun l => underExecutionInput l && w.tree.isFile l).insertionSort (· ≤ ·)

/-- `execution_file_seals`. -/
def executionFileSeals : Except SealError (List CaseFileSeal) :=
  match w.tree.keys.find? fun l => underExecutionInput l && w.tree.isLink l with
  | some l => .error (.symlink l)
  | none =>
    let paths := w.executionInputs
    if paths.length > w.maxExecutionFiles then .error (.tooManyFiles paths.length)
    else if (paths.map fun l => ((w.tree.fileAt l).getD []).length).sum > w.maxExecutionBytes then
      .error .tooLarge
    else paths.mapM w.sealFile

/-- `manifest_digest`. -/
def manifestDigest : Except SealError (Sha256 (List CaseFileSeal)) :=
  w.executionFileSeals.map sealManifestDigest

/-- The failures of `validate_all_content` on one authored file. -/
def validateAuthored (relative : Text) : Option (Text × Option ContentError) :=
  match decode ((w.tree.fileAt (locate relative)).getD []) with
  | none => some (relative, none)
  | some content =>
    match validateContent host.wordChar w.allowedLibraries (universalNewlines content) with
    | .error e => some (relative, some e)
    | .ok () => none

/-- `seal`. -/
def sealCase (plan : EngineeringPlan) : Except SealError CaseSeal :=
  if w.authoredPaths.items = [] ∧ w.assetPaths.items = [] then .error .emptyWorkspace
  else
    match w.listAuthored with
    | .error e => .error (.check e)
    | .ok authored =>
      match authored.filterMap (w.validateAuthored host) with
      | failure :: failures => .error (.content (failure :: failures))
      | [] =>
        match w.totalSizeExceeded with
        | .error e => .error (.check e)
        | .ok true => .error .totalSize
        | .ok false =>
          w.executionFileSeals.map fun files => ⟨plan.digest, sealManifestDigest files, files⟩

/-- The comparison of one sealed file with the current one. -/
def verifyFile (current : Dict Text CaseFileSeal) (item : CaseFileSeal) : Except SealError Unit :=
  match current.get item.path with
  | none => .error .fileSetChanged
  | some actual =>
    if actual.sha256 ≠ item.sha256 ∨ actual.sizeBytes ≠ item.sizeBytes then
      .error (.fileChanged item.path)
    else if actual.origin ≠ item.origin then .error (.originChanged item.path)
    else .ok ()

/-- `verify_seal`. -/
def verifySeal (caseSeal : CaseSeal) (plan : EngineeringPlan) : Except SealError Unit :=
  if plan.digest ≠ caseSeal.planSha256 then .error .planChanged
  else
    match w.executionFileSeals with
    | .error e => .error e
    | .ok files =>
      let expected := Dict.ofItems (caseSeal.files.map fun item => (item.path, item))
      let current := Dict.ofItems (files.map fun item => (item.path, item))
      if (∃ p ∈ expected.keys, p ∉ current) ∨ ∃ p ∈ current.keys, p ∉ expected then
        .error .fileSetChanged
      else
        match (expected.entries.map fun e => e.2).forM (verifyFile current) with
        | .error e => .error e
        | .ok () =>
          if sealManifestDigest files ≠ caseSeal.manifestSha256 then .error .manifestChanged
          else .ok ()

/-- The loop of `adopt_seal`: the workspace it leaves, and the paths of the agent. -/
def adoptFiles (authored : OrderedSet Text) :
    List CaseFileSeal → CaseWorkspace → CaseWorkspace × Except SealError (OrderedSet Text)
  | [], w => (w, .ok authored)
  | item :: files, w =>
    match w.resolveCasePath item.path true with
    | .error e => (w, .error (.check e))
    | .ok _ =>
      match item.origin with
      | .agent => adoptFiles (authored.add item.path) files w
      | .userAsset => adoptFiles authored files { w with assetPaths := w.assetPaths.add item.path }
      | .native => adoptFiles authored files w

/-- `adopt_seal`. On an exception the asset paths are those of the files before it. -/
def adoptSeal (caseSeal : CaseSeal) : CaseWorkspace × Except SealError Unit :=
  match adoptFiles .empty caseSeal.files { w with assetPaths := .empty } with
  | (w', .error e) => (w', .error e)
  | (w', .ok authored) => ({ w' with authoredPaths := authored }, .ok ())

/-- `adopt_seal`, and then `verify_seal`. -/
def adoptAndVerify (caseSeal : CaseSeal) (plan : EngineeringPlan) :
    CaseWorkspace × Except SealError Unit :=
  match w.adoptSeal caseSeal with
  | (w', .error e) => (w', .error e)
  | (w', .ok ()) => (w', w'.verifySeal caseSeal plan)

/-! ### What a seal records -/

/-- Every file of the tree has a name a file system can hold. -/
def Named : Prop := ∀ l, w.tree.isFile l → ∀ name ∈ l, FileName name

variable {w}

theorem named_of_keys (h : ∀ l ∈ w.tree.keys, ∀ name ∈ l, FileName name) : w.Named := by
  intro l hl
  refine h l ?_
  unfold FileTree.isFile FileTree.fileAt at hl
  split at hl
  · rename_i heq
    exact AList.mem_keys.1 (AList.lookup_isSome.1 (by rw [heq]; rfl))
  · cases hl

theorem sealFile_eq_ok {l : Location} {s : CaseFileSeal} (h : w.sealFile l = .ok s) :
    s.path = asPosix l ∧ s.sha256 = ⟨(w.tree.fileAt l).getD []⟩ := by
  unfold sealFile at h
  split at h
  · cases h
  · split_ifs at h
    cases h
    exact ⟨rfl, rfl⟩

theorem mem_executionInputs {l : Location} :
    l ∈ w.executionInputs ↔ underExecutionInput l ∧ w.tree.isFile l := by
  simp only [executionInputs, List.mem_insertionSort, List.mem_filter, Bool.and_eq_true]
  refine ⟨fun h => h.2, fun h => ⟨?_, h⟩⟩
  obtain ⟨b, hb⟩ := Option.isSome_iff_exists.1 h.2
  unfold FileTree.fileAt at hb
  split at hb
  · rename_i heq
    exact AList.mem_keys.1 (AList.lookup_isSome.1 (by rw [heq]; rfl))
  · cases hb

theorem executionFileSeals_eq_ok {files : List CaseFileSeal}
    (h : w.executionFileSeals = .ok files) : w.executionInputs.mapM w.sealFile = .ok files := by
  unfold executionFileSeals at h
  split at h
  · cases h
  · dsimp only at h
    split_ifs at h
    exact h

/-- A sealed file is a file below the execution inputs, under the text of its place. -/
theorem of_mem_executionFileSeals {files : List CaseFileSeal}
    (h : w.executionFileSeals = .ok files) {s : CaseFileSeal} (hs : s ∈ files) :
    ∃ l b, underExecutionInput l ∧ w.tree.fileAt l = some b ∧ s.path = asPosix l ∧
      s.sha256 = ⟨b⟩ := by
  obtain ⟨l, hl, hseal⟩ := Traversal.ok_of_mem_mapM (executionFileSeals_eq_ok h) hs
  obtain ⟨hin, hfile⟩ := mem_executionInputs.1 hl
  obtain ⟨b, hb⟩ := Option.isSome_iff_exists.1 hfile
  obtain ⟨hpath, hsha⟩ := sealFile_eq_ok hseal
  exact ⟨l, b, hin, hb, hpath, by rw [hsha, hb, Option.getD_some]⟩

/-- Every file below the execution inputs is sealed. -/
theorem exists_mem_executionFileSeals {files : List CaseFileSeal}
    (h : w.executionFileSeals = .ok files) {l : Location} {b : Bytes}
    (hin : underExecutionInput l) (hb : w.tree.fileAt l = some b) :
    ∃ s ∈ files, s.path = asPosix l ∧ s.sha256 = ⟨b⟩ := by
  have hl : l ∈ w.executionInputs :=
    mem_executionInputs.2 ⟨hin, by rw [FileTree.isFile, hb]; rfl⟩
  obtain ⟨s, hs, hseal⟩ := Traversal.exists_mem_of_mapM (executionFileSeals_eq_ok h) hl
  obtain ⟨hpath, hsha⟩ := sealFile_eq_ok hseal
  exact ⟨s, hs, hpath, by rw [hsha, hb, Option.getD_some]⟩

end CaseWorkspace
end Workspace
end OpenFoamAgent
