/-
# The mutations of the case workspace

`write_text`, `patch_text_once`, `delete` and `commit_text_transaction` of
`tools/workspace.py`. A mutation returns the workspace it leaves behind also
when it raises: `write_text` may raise after the file was replaced, a rollback
may itself be cut short.
-/
import OpenFoamAgent.Workspace.Case

namespace OpenFoamAgent
namespace Workspace

open Python Schemas

/-- The exceptions of the mutations. -/
inductive CaseError where
  | check (e : CheckError)
  | os (e : FsError)
  /-- `Agent-authored case exceeds {limit} byte limit.` -/
  | totalSize
  /-- `Patch old text must not be empty.` -/
  | patchEmpty
  /-- `Case file is too large for exact patching: {path}` -/
  | patchTooLarge (relativeText : Text)
  /-- `Exact patch requires one match in {path}; observed {count}.` -/
  | patchMatches (relativeText : Text) (count : ℕ)
  /-- `User assets cannot be deleted by LLM authoring.` -/
  | deleteUserAsset
  /-- `Controller transaction may drop only agent-authored files: {path}` -/
  | dropNotAuthored (path : Text)
  /-- `Transaction preflight failed: …` -/
  | transactionPreflight (failures : List CheckError)
  deriving DecidableEq

/-- What a mutation leaves: the workspace, and its result or exception. -/
abbrev Outcome (α : Type) := CaseWorkspace × Except CaseError α

namespace CaseWorkspace

variable (host : Host) (w : CaseWorkspace)

/-- `target.parent.mkdir(parents=True, exist_ok=True)` and `_atomic_write`. The
temporary file of `_atomic_write` has a fresh name and is gone afterwards. -/
def atomicWrite (relativeText : Text) (target : Location) (content : Text) : Outcome Unit :=
  match w.tree.makeDirectories (fun d => host.fails (.mkdir d) relativeText)
      (FileTree.parents target) with
  | (tree, .error e) => ({ w with tree }, .error (.os e))
  | (tree, .ok ()) =>
    match tree.replaceFile (host.fails .write relativeText) target (encode content) with
    | .error e => ({ w with tree }, .error (.os e))
    | .ok tree' => ({ w with tree := tree' }, .ok ())

/-- `self._authored_paths.add(self._normalized(relative_text))`. -/
def author (relativeText : Text) : CaseWorkspace :=
  { w with authoredPaths := w.authoredPaths.add (stripBy (· == '/') relativeText) }

/-- `_assert_total_size`. -/
def assertTotalSize : Except CaseError Unit :=
  match w.totalSizeExceeded with
  | .error e => .error (.check e)
  | .ok true => .error .totalSize
  | .ok false => .ok ()

/-- `write_text`. -/
def writeText (relativeText content : Text) : Outcome Digest :=
  match w.validateCandidateText host relativeText content with
  | .error e => (w, .error (.check e))
  | .ok digest =>
    match w.resolveCasePath relativeText false with
    | .error e => (w, .error (.check e))
    | .ok path =>
      match w.atomicWrite host relativeText path content with
      | (w', .error e) => (w', .error e)
      | (w', .ok ()) =>
        match (w'.author relativeText).assertTotalSize with
        | .error e => (w'.author relativeText, .error e)
        | .ok () => (w'.author relativeText, .ok digest)

/-- `patch_text_once`. -/
def patchTextOnce (relativeText old new : Text) : Outcome Digest :=
  if old = [] then (w, .error .patchEmpty)
  else
    match w.readText relativeText (w.maxFileBytes + 1) with
    | .error e => (w, .error (.check e))
    | .ok current =>
      if "\n... [truncated]".toList.isSuffixOf current then
        (w, .error (.patchTooLarge relativeText))
      else if count old current ≠ 1 then
        (w, .error (.patchMatches relativeText (count old current)))
      else w.writeText host relativeText (replaceOnce old new current)

/-- `delete`: the file, and the directories it leaves empty. -/
def delete (relativeText : Text) : Outcome Unit :=
  match normalizedText relativeText with
  | .error e => (w, .error (.check e))
  | .ok n =>
    match w.resolveCasePath n true with
    | .error e => (w, .error (.check e))
    | .ok path =>
      if n ∈ w.assetPaths then (w, .error .deleteUserAsset)
      else
        match w.tree.unlink (host.fails .unlink relativeText) path with
        | .error e => (w, .error (.os e))
        | .ok tree =>
          match tree.removeEmptyDirectories (fun d => host.fails (.rmdir d) relativeText)
              (FileTree.parents path).reverse with
          | (tree', r) =>
            ({ w with tree := tree', authoredPaths := w.authoredPaths.discard n },
              r.mapError .os)

/-! ### Transactions -/

/-- The checks of `commit_text_transaction` on one dropped path. -/
def checkDrop (path : Text) : Except CaseError Unit :=
  if path ∈ w.assetPaths then .error .deleteUserAsset
  else if path ∉ w.authoredPaths then .error (.dropNotAuthored path)
  else
    match w.resolveCasePath path true with
    | .error e => .error (.check e)
    | .ok _ => .ok ()

/-- The state of one path before the transaction: its file's content, if it is a file. -/
def snapshot (relativeText : Text) : Except CaseError (Text × Option Bytes) :=
  match w.resolveCasePath relativeText false with
  | .error e => .error (.check e)
  | .ok target => .ok (relativeText, w.tree.fileAt target)

/-- The writes of the `try` block. -/
def commitWrites (w : CaseWorkspace) : List (Text × Text) → Outcome (List (Text × Digest))
  | [] => (w, .ok [])
  | (relativeText, content) :: changes =>
    match w.resolveCasePath relativeText false with
    | .error e => (w, .error (.check e))
    | .ok target =>
      match w.atomicWrite host relativeText target content with
      | (w', .error e) => (w', .error e)
      | (w', .ok ()) =>
        match commitWrites (w'.author relativeText) changes with
        | (w'', .error e) => (w'', .error e)
        | (w'', .ok digests) =>
          (w'', .ok ((stripBy (· == '/') relativeText, ⟨encode content⟩) :: digests))

/-- The drops of the `try` block. -/
def commitDrops (w : CaseWorkspace) : List Text → Outcome Unit
  | [] => (w, .ok ())
  | path :: drops =>
    match w.resolveCasePath path true with
    | .error e => (w, .error (.check e))
    | .ok target =>
      match w.tree.unlink (host.fails .unlink path) target with
      | .error e => (w, .error (.os e))
      | .ok tree =>
        commitDrops { w with tree, authoredPaths := w.authoredPaths.discard path } drops

/-- The `try` block. -/
def commitForward (changes : List (Text × Text)) (drops : List Text) :
    Outcome (List (Text × Digest)) :=
  match w.commitWrites host changes with
  | (w', .error e) => (w', .error e)
  | (w', .ok digests) =>
    match w'.commitDrops host drops with
    | (w'', .error e) => (w'', .error e)
    | (w'', .ok ()) =>
      match w''.assertTotalSize with
      | .error e => (w'', .error e)
      | .ok () => (w'', .ok digests)

/-- `target.with_name(f".{target.name}.rollback.tmp")`. -/
def rollbackTemporary (target : Location) : Location :=
  target.dropLast ++ ['.' :: target.getLastD [] ++ ".rollback.tmp".toList]

/-- `temporary.write_bytes(payload)`: through the link, where the name is one. -/
def writeBytes (tree : FileTree Text Bytes) (temporary : Location) (payload : Bytes) :
    Except FsError (FileTree Text Bytes) :=
  match tree.lookup temporary with
  | some .directory => .error .isDirectory
  | some (.link none) => .ok tree
  | some (.link (some l)) =>
    if tree.isDirectory l then .error .isDirectory else .ok (tree.insert l (.file payload))
  | _ => .ok (tree.insert temporary (.file payload))

/-- `os.replace(temporary, target)`. -/
def rename (tree : FileTree Text Bytes) (temporary target : Location) :
    Except FsError (FileTree Text Bytes) :=
  if tree.isDirectory target then .error .isDirectory
  else
    match tree.lookup temporary with
    | none => .error .notFound
    | some n => .ok ((tree.erase temporary).insert target n)

/-- The restoration of a file's content over a temporary file next to it. -/
def restoreFile (tree : FileTree Text Bytes) (relativeText : Text) (target : Location)
    (payload : Bytes) : FileTree Text Bytes × Except CaseError Unit :=
  match tree.makeDirectories (fun d => host.fails (.restoreMkdir d) relativeText)
      (FileTree.parents target) with
  | (tree', .error e) => (tree', .error (.os e))
  | (tree', .ok ()) =>
    match writeBytes tree' (rollbackTemporary target) payload with
    | .error e => (tree', .error (.os e))
    | .ok tree'' =>
      if host.fails .restore relativeText then (tree'', .error (.os .host))
      else
        match rename tree'' (rollbackTemporary target) target with
        | .error e => (tree'', .error (.os e))
        | .ok final => (final, .ok ())

/-- `target.unlink(missing_ok=True)`. -/
def unlinkIfPresent (tree : FileTree Text Bytes) (relativeText : Text) (target : Location) :
    FileTree Text Bytes × Except CaseError Unit :=
  match tree.unlink (host.fails .restoreUnlink relativeText) target with
  | .ok tree' => (tree', .ok ())
  | .error .notFound => (tree, .ok ())
  | .error e => (tree, .error (.os e))

/-- The restoration of one snapshot. -/
def restoreSnapshot (tree : FileTree Text Bytes) (relativeText : Text) (target : Location) :
    Option Bytes → FileTree Text Bytes × Except CaseError Unit
  | none => unlinkIfPresent host tree relativeText target
  | some payload => restoreFile host tree relativeText target payload

/-- The restoration of the snapshots, up to the first call that raises. -/
def rollback (w : CaseWorkspace) : List (Text × Option Bytes) → Outcome Unit
  | [] => (w, .ok ())
  | (relativeText, payload) :: snapshots =>
    match w.resolveCasePath relativeText false with
    | .error e => (w, .error (.check e))
    | .ok target =>
      match restoreSnapshot host w.tree relativeText target payload with
      | (tree, .error e) => ({ w with tree }, .error e)
      | (tree, .ok ()) => rollback { w with tree } snapshots

/-- The paths of a transaction in the iteration order of `set(changes) | set(drops)`. -/
def touchedPaths (changes : List (Text × Text)) (drops : List Text) : List Text :=
  host.arrange (changes.map Prod.fst ++ drops).dedup

/-- The `try … except` of `commit_text_transaction`, from the snapshots on. -/
def commitOrRollback (changes : List (Text × Text)) (drops : List Text)
    (snapshots : List (Text × Option Bytes)) : Outcome (List (Text × Digest)) :=
  match w.commitForward host changes drops with
  | (w', .ok digests) => (w', .ok digests)
  | (w', .error e) =>
    match { w' with authoredPaths := w.authoredPaths }.rollback host snapshots with
    | (w'', .error e') => (w'', .error e')
    | (w'', .ok ()) => (w'', .error e)

/-- The checks of `commit_text_transaction` before its snapshots: the normalized drops. -/
def commitPreflight (changes : List (Text × Text)) (dropPaths : List Text) :
    Except CaseError (List Text) :=
  match w.validateCandidateBundle host changes dropPaths with
  | .error e => .error (.check e)
  | .ok (e :: es) => .error (.transactionPreflight (e :: es))
  | .ok [] =>
    match dropPaths.mapM normalizedText with
    | .error e => .error (.check e)
    | .ok normalizedDrops => do
      let drops := normalizedDrops.eraseDups
      drops.forM w.checkDrop
      return drops

/-- `commit_text_transaction`. -/
def commitTextTransaction (changes : List (Text × Text)) (dropPaths : List Text) :
    Outcome (List (Text × Digest)) :=
  match w.commitPreflight host changes dropPaths with
  | .error e => (w, .error e)
  | .ok drops =>
    match (touchedPaths host changes drops).mapM w.snapshot with
    | .error e => (w, .error e)
    | .ok snapshots => w.commitOrRollback host changes drops snapshots

end CaseWorkspace
end Workspace
end OpenFoamAgent
