/-
# Mesh dependencies

`MeshDependencyGraph` of `contracts/mesh_dependencies.py`: the history of native
mesh operations, the paths the mesh of a region depends on, and the digest of
their files. The history lies outside `case/`, so no edit of the case changes it.

Included files are followed as files. Where a relative include leads is decided
by the symbolic links on the way, so it is an argument: a function of the links
of the case.
-/
import OpenFoamAgent.Library.Exploration
import OpenFoamAgent.Python.Regex
import OpenFoamAgent.Schemas.Plan
import OpenFoamAgent.Workspace.Seal

namespace OpenFoamAgent
namespace Engineering

open Python Schemas Workspace

/-! ### The history -/

/-- A recorded operation; its id is its position in the history. -/
structure MeshOperation where
  inputs : List Text
  outputs : List Text
  parents : List ℕ := []
  regions : List Text
  command : Document := []
  conservative : Bool := false
  deriving DecidableEq

/-- The file `mesh-dependencies.json`. -/
inductive MeshRegistry where
  | absent
  /-- A symbolic link, or too large. -/
  | untrusted
  /-- A version or checksum that does not match, or ids that are not the positions. -/
  | mismatch
  | recorded (operations : List MeshOperation)

/-- The `ValueError`s of the dependency graph. -/
inductive MeshValueError where
  /-- `Unsafe mesh dependency registry.` -/
  | untrustedRegistry
  /-- `Mesh dependency registry checksum/version mismatch.` -/
  | registryMismatch
  /-- `Mesh dependency graph is not a chronological DAG.` -/
  | notChronological
  /-- `Mesh dependency paths must be case-relative inputs.` -/
  | foreignPath (path : Text)
  /-- `Mesh include dependency escapes the case.` -/
  | includeEscapes
  /-- The validation error of a `CaseFileSeal`. -/
  | sealPath (path : Text)
  deriving DecidableEq

/-- The exceptions of the dependency graph, by class. -/
inductive MeshError where
  | value (e : MeshValueError)
  | workspace (e : SealError)
  deriving DecidableEq

/-- `_path`. -/
def meshPath (path : Text) : Except MeshError Text :=
  let parts := pathParts path
  if path.head? = some '/' ∨ "..".toList ∈ parts ∨
      parts.head?.all (· ∉ executionInputTopLevel) then
    .error (.value (.foreignPath path))
  else .ok (path.rdropWhile (· == '/'))

/-- The operations from one position on stand behind their parents and name case inputs. -/
def checkHistory : ℕ → List MeshOperation → Except MeshError Unit
  | _, [] => .ok ()
  | index, node :: nodes =>
    if node.parents.any (index ≤ ·) then .error (.value .notChronological)
    else
      match (node.inputs ++ node.outputs).mapM meshPath with
      | .error e => .error e
      | .ok _ => checkHistory (index + 1) nodes

/-- `MeshDependencyGraph(workspace).operations`. -/
def MeshRegistry.load : MeshRegistry → Except MeshError (List MeshOperation)
  | absent => .ok []
  | untrusted => .error (.value .untrustedRegistry)
  | mismatch => .error (.value .registryMismatch)
  | recorded operations =>
    match checkHistory 0 operations with
    | .error e => .error e
    | .ok () => .ok operations

/-- `_overlap`. -/
def meshOverlap (a b : Text) : Bool :=
  a == b || (b.rdropWhile (· == '/') ++ ['/']).isPrefixOf a ||
    (a.rdropWhile (· == '/') ++ ['/']).isPrefixOf b

/-- The mesh of a region; the root case is the empty text. -/
def meshSink (region : Text) : Text :=
  if region = [] then "constant/polyMesh".toList
  else "constant/".toList ++ region ++ "/polyMesh".toList

/-- The operations that made the mesh of a region. -/
def producers (operations : List MeshOperation) (region : Text) : List ℕ :=
  (List.range operations.length).filter fun index =>
    operations[index]?.any fun node =>
      region ∈ node.regions || node.outputs.any (meshOverlap (meshSink region))

/-- The positions with their ancestors; each position is met once. -/
def withAncestors (operations : List MeshOperation) : ℕ → List ℕ → List ℕ → List ℕ
  | 0, _, selected => selected
  | _, [], selected => selected
  | n + 1, index :: todo, selected =>
    let parents := (operations[index]?.elim [] (·.parents)).dedup.filter (· ∉ selected)
    withAncestors operations n (parents ++ todo) (selected ++ parents)

/-- The operations a region depends on, with their positions. -/
def selectedOperations (operations : List MeshOperation) (region : Text) :
    List (ℕ × MeshOperation) :=
  let sinks := producers operations region
  let selected := withAncestors operations operations.length sinks sinks
  (List.range operations.length).filterMap fun index =>
    if index ∈ selected then operations[index]?.map (index, ·) else none

/-- The paths that the operations and the mesh itself contribute. -/
def rootPaths (operations : List MeshOperation) (region : Text) : List Text :=
  (meshSink region :: (selectedOperations operations region).flatMap fun node =>
    node.2.inputs ++ node.2.outputs).dedup

/-! ### Included files -/

/-- Where `strip_comments` stands. -/
inductive CommentMode where
  | code | quoted (quote : Char) | line | block

/-- The loop of `strip_comments`. -/
def stripFrom : CommentMode → Text → Text
  | _, [] => []
  | .quoted q, '\\' :: c :: cs => '\\' :: c :: stripFrom (.quoted q) cs
  | .quoted q, c :: cs => c :: stripFrom (if c = q then .code else .quoted q) cs
  | .line, c :: cs => if c = '\n' then '\n' :: stripFrom .code cs else stripFrom .line cs
  | .block, '*' :: '/' :: cs => stripFrom .code cs
  | .block, [_] => []
  | .block, c :: cs => if c = '\n' then '\n' :: stripFrom .block cs else stripFrom .block cs
  | .code, '/' :: '/' :: cs => stripFrom .line cs
  | .code, '/' :: '*' :: cs => stripFrom .block cs
  | .code, c :: cs => c :: stripFrom (if c = '"' ∨ c = '\'' then .quoted c else .code) cs

/-- `strip_comments` of `verification/foam_semantics/parser.py`. -/
def stripComments (t : Text) : Text := stripFrom .code t

theorem stripFrom_line {body rest : Text} (hbody : '\n' ∉ body)
    (hnewline : ∀ c ∈ rest.head?, c = '\n') :
    stripFrom .line (body ++ rest) = stripFrom .code rest := by
  induction body with
  | nil =>
    cases rest with
    | nil => rfl
    | cons c cs =>
      obtain rfl := hnewline c rfl
      rfl
  | cons c cs ih =>
    rw [List.mem_cons, not_or] at hbody
    rw [List.cons_append, stripFrom, if_neg (Ne.symm hbody.1), ih hbody.2]

theorem stripFrom_code {c : Char} {cs : Text} (hquote : c ≠ '"' ∧ c ≠ '\'')
    (hmark : c = '/' → ∀ d ∈ cs.head?, d ≠ '/' ∧ d ≠ '*') :
    stripFrom .code (c :: cs) = c :: stripFrom .code cs := by
  rw [stripFrom, if_neg (not_or.2 hquote)]
  · rintro cs' rfl rfl
    exact (hmark rfl '/' rfl).1 rfl
  · rintro cs' rfl rfl
    exact (hmark rfl '*' rfl).2 rfl

theorem stripFrom_quote {q : Char} {cs : Text} (hquote : q = '"' ∨ q = '\'') :
    stripFrom .code (q :: cs) = q :: stripFrom (.quoted q) cs := by
  rw [stripFrom, if_pos hquote]
  all_goals
    rintro cs' rfl
    rcases hquote with h | h <;> cases h

/-- `#include(?:IfPresent)?\s+"([^"\n]+)"`. -/
def includePattern : Pattern :=
  .all [.exactly "#include", .optional (.exactly "IfPresent"), .someSpace, .exactly "\"",
    .group "path" (.plus (.one fun c => c != '"' && c != '\n')), .exactly "\""]

/-- The paths that the include directives of a text name. -/
def includeTargets (t : Text) : List Text :=
  (includePattern.findAll (stripComments t)).filterMap (·.group "path")

/-- What the dependency graph asks of the machine. -/
structure MeshHost where
  host : Host
  /-- `(directory / raw).resolve()`, unless it leads out of `case/`: a function of the symbolic
  links, each with its target. -/
  realpath : (Location → Option (Option Location)) → Location → Text → Option Location

/-- The symbolic link at a place. -/
def linkAt (tree : FileTree Text Bytes) (l : Location) : Option (Option Location) :=
  match tree.lookup l with
  | some (.link target) => some target
  | _ => none

variable (m : MeshHost) (w : CaseWorkspace)

/-- One include directive of a file in a directory. -/
def includedPath (directory : Location) (raw : Text) : Except MeshError Text :=
  match m.realpath (linkAt w.tree) directory raw with
  | none | some [] => .error (.value .includeEscapes)
  | some target =>
    match meshPath (asPosix target) with
    | .error e => .error e
    | .ok _ => .ok (asPosix target)

/-- The files a path includes, none for what is no UTF-8 file of at most 2 MB. -/
def includesOf (relative : Text) : Except MeshError (List Text) :=
  match w.resolveCasePath relative false with
  | .error e => .error (.workspace (.check e))
  | .ok l =>
    match w.tree.fileAt l with
    | none => .ok []
    | some data =>
      if data.length > 2000000 then .ok []
      else
        match decode data with
        | none => .ok []
        | some text => (includeTargets (universalNewlines text)).mapM (includedPath m w l.dropLast)

/-- The exceptions of sealing, by class. -/
def sealing {α : Type} : Except SealError α → Except MeshError α
  | .ok a => .ok a
  | .error (.pathTooLong path) => .error (.value (.sealPath path))
  | .error e => .error (.workspace e)

/-- The paths some file of the case includes. -/
def includeUniverse : List Text :=
  w.tree.entries.flatMap fun entry =>
    match entry.2 with
    | .file data =>
      (decode data).elim [] fun text =>
        (includeTargets (universalNewlines text)).filterMap fun raw =>
          (includedPath m w entry.1.dropLast raw).toOption
    | _ => []

/-- The paths that are searched for includes: those of the operations in the order a set has
them, then the sealed files below them. -/
def includeStart (operations : List MeshOperation) (region : Text) (seals : List CaseFileSeal) :
    List Text :=
  let roots := rootPaths operations region
  m.host.arrange roots ++
    (seals.map (·.path)).filter fun path => roots.any fun root => (root ++ ['/']).isPrefixOf path

/-- `dependencies`: the paths, as a set, and the operations. -/
def dependencies (operations : List MeshOperation) (region : Text) :
    Except MeshError (List Text × List (ℕ × MeshOperation)) :=
  match sealing w.executionFileSeals with
  | .error e => .error e
  | .ok seals =>
    let start := (includeStart m operations region seals).reverse
    let turns := start.length + (includeUniverse m w).length + 1
    match explore (includesOf m w) turns start [] [] with
    | .error e => .error e
    | .ok included =>
      .ok (rootPaths operations region ++ included, selectedOperations operations region)

end Engineering
end OpenFoamAgent
