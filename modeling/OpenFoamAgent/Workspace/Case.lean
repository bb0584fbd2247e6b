/-
# The case workspace

`CaseWorkspace` of `tools/workspace.py`: the tree below `case/`, the two
tracking sets, path resolution, and the preflight checks every mutation starts
with. The mutations themselves are in `Workspace.Mutations`.

What the host decides is an argument: which characters outside ASCII count as
word characters, the iteration order of a set, and which system calls fail.
Reads do not fail.
-/
import OpenFoamAgent.Library.FileTree
import OpenFoamAgent.Library.OrderedSet
import OpenFoamAgent.Schemas.Plan
import OpenFoamAgent.Workspace.ContentPolicy
import OpenFoamAgent.Workspace.Path

namespace OpenFoamAgent
namespace Workspace

open Python Schemas

/-- The system calls of the mutations. Together with the path text of the
mutation they name one call. -/
inductive Syscall where
  | mkdir (directory : Location)
  | write
  | unlink
  | rmdir (directory : Location)
  | restore
  | restoreMkdir (directory : Location)
  | restoreUnlink
  deriving DecidableEq

/-- The machine a workspace lives on. -/
structure Host where
  /-- `\b`: the characters outside `[A-Za-z0-9_]` that are word characters. -/
  wordChar : Char → Bool
  /-- The iteration order of a set with these elements. -/
  arrange : List Text → List Text
  arrange_perm : ∀ l, (arrange l).Perm l
  /-- The call fails with an `OSError`. -/
  fails : Syscall → Text → Bool

/-- A host on which nothing fails. -/
def Host.reliable : Host where
  wordChar := fun _ => false
  arrange := id
  arrange_perm := fun _ => List.Perm.refl _
  fails := fun _ _ => false

/-- The exceptions of the checks, which change nothing. -/
inductive CheckError where
  | path (e : PathError)
  /-- `Symlink path component is forbidden: {path}` -/
  | symlink (relativeText : Text)
  /-- `Case file does not exist: {path}` -/
  | missing (relativeText : Text)
  /-- `Case files must not contain NUL bytes.` -/
  | nulBytes
  /-- `Case file exceeds {limit} byte limit: {path}` -/
  | fileTooLarge (relativeText : Text)
  /-- `User assets are immutable to LLM authoring; use an explicit replacement/fork.` -/
  | userAsset
  | content (relativeText : Text) (e : ContentError)
  /-- `Agent-authored case would exceed {limit} byte limit after bundle commit.` -/
  | bundleTooLarge
  deriving DecidableEq

/-- `CaseWorkspace`: the tree below `case_dir`, the limits and the tracking sets. -/
structure CaseWorkspace where
  tree : FileTree Text Bytes
  maxFileBytes : ℕ := 1000000
  maxTotalBytes : ℕ := 8000000
  maxExecutionBytes : ℕ := 2000000000
  maxExecutionFiles : ℕ := 50000
  allowedLibraries : List Text := ["libfvMotionSolvers.so".toList,
    "librigidBodyMeshMotion.so".toList, "libforces.so".toList, "libfieldFunctionObjects.so".toList]
  authoredPaths : OrderedSet Text
  assetPaths : OrderedSet Text

namespace CaseWorkspace

variable (host : Host) (w : CaseWorkspace)

/-- `resolve_case_path`. A path without symbolic links resolves to itself and lies
below `case_dir`, so the containment test that follows in the source holds. -/
def resolveCasePath (relativeText : Text) (mustExist : Bool) : Except CheckError Location :=
  match validateRelative relativeText with
  | .error e => .error (.path e)
  | .ok relative =>
    if w.tree.linkOnPath relative then .error (.symlink relativeText)
    else if mustExist ∧ ¬ w.tree.isFile relative then .error (.missing relativeText)
    else .ok relative

/-- `_normalized`, among the errors of the checks. -/
def normalizedText (relativeText : Text) : Except CheckError Text :=
  match normalized relativeText with
  | .error e => .error (.path e)
  | .ok n => .ok n

/-- `validate_candidate_text`: the digest the file would have. -/
def validateCandidateText (relativeText content : Text) : Except CheckError Digest :=
  if Char.ofNat 0 ∈ content then .error .nulBytes
  else if (encode content).length > w.maxFileBytes then .error (.fileTooLarge relativeText)
  else
    match w.resolveCasePath relativeText false with
    | .error e => .error e
    | .ok _ =>
      match normalizedText relativeText with
      | .error e => .error e
      | .ok n =>
        if n ∈ w.assetPaths then .error .userAsset
        else
          match validateContent host.wordChar w.allowedLibraries content with
          | .error e => .error (.content relativeText e)
          | .ok () => .ok ⟨encode content⟩

/-- `list_authored`, in the iteration order of the set. -/
def listAuthored : Except CheckError (List Text) :=
  w.authoredPaths.items.filterMapM fun path => do
    let l ← w.resolveCasePath path false
    return if w.tree.isFile l then some path else none

/-- `resolve_case_path(path, must_exist=True).stat().st_size`. -/
def fileSize (relativeText : Text) : Except CheckError ℕ := do
  let l ← w.resolveCasePath relativeText true
  return ((w.tree.fileAt l).getD []).length

/-- The first loop of `validate_candidate_bundle`: the failures, and the sizes of
the candidates that pass, keyed by normalized path. A later spelling of a path
replaces the size of an earlier one. -/
def candidateSizes : List (Text × Text) → List CheckError × AList (fun _ : Text => ℕ)
  | [] => ([], ∅)
  | (relativeText, content) :: files =>
    let (failures, sizes) := candidateSizes files
    match normalizedText relativeText with
    | .error e => (e :: failures, sizes)
    | .ok n =>
      match w.validateCandidateText host n content with
      | .error e => (e :: failures, sizes)
      | .ok _ =>
        if n ∈ sizes then (failures, sizes) else (failures, sizes.insert n (encode content).length)

/-- `validate_candidate_bundle`: the failures, none when the bundle may be committed. -/
def validateCandidateBundle (files : List (Text × Text)) (dropPaths : List Text) :
    Except CheckError (List CheckError) :=
  match w.candidateSizes host files with
  | (e :: es, _) => .ok (e :: es)
  | ([], sizes) => do
    let dropped ← dropPaths.mapM normalizedText
    let authored ← w.listAuthored
    let kept ← (authored.filter fun path => path ∉ sizes ∧ path ∉ dropped).mapM w.fileSize
    if kept.sum + (sizes.entries.map fun e => e.2).sum > w.maxTotalBytes then
      return [.bundleTooLarge]
    else return []

/-- `read_text`: the file in text mode, cut after `max_chars` characters. -/
def readText (relativeText : Text) (maxChars : ℕ) : Except CheckError Text := do
  let l ← w.resolveCasePath relativeText true
  let data := universalNewlines (decodeReplace ((w.tree.fileAt l).getD []))
  return if data.length > maxChars then data.take maxChars ++ "\n... [truncated]".toList else data

/-- `case_file_digest`. -/
def caseFileDigest (relativeText : Text) : Except CheckError Digest := do
  let l ← w.resolveCasePath relativeText true
  return ⟨(w.tree.fileAt l).getD []⟩

/-- `_assert_total_size`: whether the authored files exceed the limit. -/
def totalSizeExceeded : Except CheckError Bool := do
  let authored ← w.listAuthored
  let sizes ← authored.mapM w.fileSize
  return decide (sizes.sum > w.maxTotalBytes)

end CaseWorkspace
end Workspace
end OpenFoamAgent
