/-
# Meshes from saved files

`read_mesh` of `postprocessing/native_fields.py`: the tokens of the five files of a
`polyMesh` directory become points, faces, owners, neighbours and patches; then every
face is checked for its shape, and every cell for being closed.

The arithmetic of coordinates is an argument (`Arithmetic`), so that the model is that of
any numbers: those of the interpreter, or exact ones. What is read of the workspace is an
argument too: the decoded text of a file, and whether a time directory holds a mesh.
-/
import Mathlib.Algebra.Order.Field.Rat
import Mathlib.Data.List.Sort
import OpenFoamAgent.Engineering.MeshDependencies
import OpenFoamAgent.Library.Dict
import OpenFoamAgent.Python.Regex

namespace OpenFoamAgent
namespace Postprocessing

open Python

/-- The exceptions of `read_mesh`. -/
inductive NativeError where
  | region | timeLocal | source | directive | tokenLimit | truncated
  | unexpected (token : Text)
  | integer | size | scalar | nesting | key | malformed | unbalanced | semicolon | incomplete
  | format | objectName | trailing | addressing | cells | patchName | processor | patchRange
  | coverage | degenerate | zeroArea | warped | concave | orientation | unclosed
  deriving DecidableEq

/-! ### Tokens -/

/-- A token of one character. -/
def isDelimiter (c : Char) : Bool := ['{', '}', '(', ')', '[', ']', ';'].contains c

/-- `TOKEN`. -/
def tokenPattern : Pattern :=
  .group "token" (.or
    (.all [.exactly "\"", .star (.one fun c => c != '"' && c != '\n'), .exactly "\""])
    (.or (.one isDelimiter) (.plus (.one fun c => !isSpace c && !isDelimiter c))))

/-- `TOKEN.findall(text)`. -/
def tokensOf (text : Text) : List Text := (tokenPattern.findAll text).filterMap (·.group "token")

/-- A reader of the tokens that are left. -/
abbrev TokenReader (α : Type) := StateT (List Text) (Except NativeError) α

/-- `Tokens(text)`, and what is read of it. -/
def readTokens {α : Type} (text : Text) (read : TokenReader α) : Except NativeError (α × List Text) :=
  if 3000000 < (tokensOf text).length then .error .tokenLimit else read.run (tokensOf text)

/-- `pop()`. -/
def pop : TokenReader Text := do
  match ← get with
  | [] => throw .truncated
  | token :: rest => set rest; return token

/-- `pop(expected)`. -/
def expect (expected : String) : TokenReader Unit := do
  let token ← pop
  if token ≠ expected.toList then throw (.unexpected token)

/-- `MAX_ITEMS`. -/
def maxItems : ℕ := 250000

/-- `integer()`. -/
def integer : TokenReader ℕ := do
  let token ← pop
  if token = [] ∨ !token.all isAsciiDigit then throw .integer
  if maxItems < digitsValue token then throw .size
  return digitsValue token

/-- `[read() for _ in range(n)]`. -/
def readTimes {α : Type} (n : ℕ) (read : TokenReader α) : TokenReader (List α) :=
  (List.range n).mapM fun _ => read

/-! ### Dictionaries -/

/-- The value of a dictionary entry. -/
inductive Entry where
  | tokens (ts : List Text)
  | block (entries : List (Text × Entry))

/-- `[A-Za-z_][A-Za-z0-9_.-]*` -/
def isEntryKey : Text → Bool
  | [] => false
  | c :: cs => (isAsciiLetter c || c == '_') &&
    cs.all fun c => isAsciiWord c || c == '.' || c == '-'

/-- The tokens of an entry up to its semicolon, and those behind it. -/
def entryTokens : List Text → List Text → Except NativeError (List Text × List Text)
  | _, [] => .error .semicolon
  | stack, token :: rest =>
    if token = [';'] ∧ stack = [] then .ok ([], rest)
    else
      let taken := fun stack => (entryTokens stack rest).map fun r => (token :: r.1, r.2)
      match token, stack with
      | ['('], stack => taken (token :: stack)
      | ['['], stack => taken (token :: stack)
      | [')'], ['('] :: stack => taken stack
      | [']'], ['['] :: stack => taken stack
      | [')'], _ => .error .unbalanced
      | [']'], _ => .error .unbalanced
      | ['{'], _ => .error .malformed
      | ['}'], _ => .error .malformed
      | _, stack => taken stack

/-- `dictionary(closing, depth)`, after some entries; there are no more turns than tokens. -/
def dictionaryFrom (closing : Option Text) :
    ℕ → ℕ → List (Text × Entry) → List Text → Except NativeError (List (Text × Entry) × List Text)
  | 0, _, result, tokens => .ok (result, tokens)
  | _, _, result, [] => .ok (result, [])
  | fuel + 1, depth, result, token :: rest =>
    if some token = closing then .ok (result, token :: rest)
    else
      let key := stripBy (· == '"') token
      if !isEntryKey key || key ∈ result.map Prod.fst then .error .key
      else
        match rest with
        | ['{'] :: rest =>
          if 12 < depth + 1 then .error .nesting
          else
            match dictionaryFrom (some ['}']) fuel (depth + 1) [] rest with
            | .error e => .error e
            | .ok (_, []) => .error .truncated
            | .ok (inner, token :: rest) =>
              if token ≠ ['}'] then .error (.unexpected token)
              else
                dictionaryFrom closing fuel depth (result ++ [(key, .block inner)])
                  (if rest.head? = some [';'] then rest.tail else rest)
        | rest =>
          match entryTokens [] rest with
          | .error e => .error e
          | .ok (value, rest) =>
            if value = [] then .error .incomplete
            else dictionaryFrom closing fuel depth (result ++ [(key, .tokens value)]) rest

/-- `dictionary("}")`. -/
def block : TokenReader (List (Text × Entry)) := do
  let tokens ← get
  let (result, rest) ← (dictionaryFrom (some ['}']) tokens.length 0 [] tokens : Except _ _)
  set rest
  return result

/-- `entries.get(key)`, as tokens. -/
def tokensAt (entries : List (Text × Entry)) (key : String) : Option (List Text) :=
  match entries.lookup key.toList with
  | some (.tokens ts) => some ts
  | _ => none

/-- `header(stream, object_name=…)`. -/
def header (objectName : String) : TokenReader Unit := do
  expect "FoamFile"
  expect "\x7b"
  let h ← block
  expect "\x7d"
  if tokensAt h "format" ≠ some ["ascii".toList] then throw .format
  if tokensAt h "object" ≠ some [objectName.toList] then throw .objectName

/-! ### Coordinates -/

/-- The numbers of coordinates: what `float(token)` is where it is finite, and the arithmetic. -/
structure Arithmetic (R : Type) where
  number : Text → Option R
  ofRat : ℚ → R
  add : R → R → R
  sub : R → R → R
  mul : R → R → R
  div : R → R → R
  /-- `sum(values)` -/
  sum : List R → R
  sqrt : R → R
  abs : R → R
  lt : R → R → Bool
  le : R → R → Bool
  /-- `math.isfinite(x)` -/
  finite : R → Bool

/-- A point, or a vector. -/
abbrev Vec (R : Type) := R × R × R

section
variable {R : Type} (A : Arithmetic R)

def zeroVec : Vec R := (A.ofRat 0, A.ofRat 0, A.ofRat 0)

/-- `sub`. -/
def subVec (a b : Vec R) : Vec R := (A.sub a.1 b.1, A.sub a.2.1 b.2.1, A.sub a.2.2 b.2.2)

/-- `add`. -/
def addVec (a b : Vec R) : Vec R := (A.add a.1 b.1, A.add a.2.1 b.2.1, A.add a.2.2 b.2.2)

/-- `cross`. -/
def cross (a b : Vec R) : Vec R :=
  (A.sub (A.mul a.2.1 b.2.2) (A.mul a.2.2 b.2.1),
    A.sub (A.mul a.2.2 b.1) (A.mul a.1 b.2.2),
    A.sub (A.mul a.1 b.2.1) (A.mul a.2.1 b.1))

/-- `dot`. -/
def dot (a b : Vec R) : R :=
  A.sum [A.mul a.1 b.1, A.mul a.2.1 b.2.1, A.mul a.2.2 b.2.2]

/-- `norm`. -/
def norm (a : Vec R) : R := A.sqrt (dot A a a)

def mapVec {S : Type} (f : R → S) (a : Vec R) : Vec S := (f a.1, f a.2.1, f a.2.2)

/-- `tuple(sign*x for x in a)`. -/
def signedVec (sign : ℤ) (a : Vec R) : Vec R := mapVec (A.mul (A.ofRat sign)) a

/-! ### Faces -/

/-- The area vector and the volume below a face, from one triangle of its fan on. -/
def addTriangle (origin p₀ : Vec R) (sums : Vec R × R) (edge : Vec R × Vec R) : Vec R × R :=
  let tri := cross A (subVec A edge.1 p₀) (subVec A edge.2 p₀)
  (addVec A sums.1 (mapVec (A.div · (A.ofRat 2)) tri),
    A.add sums.2 (A.div (dot A (subVec A p₀ origin) tri) (A.ofRat 6)))

/-- The area vector of a face, and the volume of the cone from the origin over it. -/
def faceSums (origin : Vec R) : List (Vec R) → Vec R × R
  | [] => (zeroVec A, A.ofRat 0)
  | p₀ :: p => (p.zip p.tail).foldl (addTriangle A origin p₀) (zeroVec A, A.ofRat 0)

/-- `max(values)`. -/
def maximum : List R → R
  | [] => A.ofRat 0
  | x :: xs => xs.foldl (fun m y => if A.lt m y then y else m) x

/-- The checks of the shape of a face; the result is its area. -/
def checkFace (p : List (Vec R)) (area : Vec R) : Except NativeError R :=
  let p₀ := p.headD (zeroVec A)
  let mag := norm A area
  let scale := maximum A (p.map fun point => norm A (subVec A point p₀))
  let flat := A.mul (A.mul (A.ofRat (1 / 10 ^ 9)) mag) scale
  let bent := A.mul (A.mul (A.mul (A.ofRat (-1 / 10 ^ 12)) mag) scale) scale
  if A.le mag (A.ofRat 0) || !A.finite mag then .error .zeroArea
  else if p.any fun point => A.lt flat (A.abs (dot A (subVec A point p₀) area)) then .error .warped
  else if (p.zip ((p.rotate 1).zip (p.rotate 2))).any fun t =>
      A.lt (dot A (cross A (subVec A t.2.1 t.1) (subVec A t.2.2 t.2.1)) area) bent then
    .error .concave
  else .ok mag

/-! ### Cells -/

/-- The uses of an edge by the faces of a cell, and how far those in one direction outnumber the
others. -/
abbrev EdgeUses := Dict (ℕ × ℕ) (ℕ × ℤ)

/-- `tuple(sorted((a,b)))`. -/
def edgeKey (e : ℕ × ℕ) : ℕ × ℕ := (min e.1 e.2, max e.1 e.2)

/-- `zip(face,face[1:]+face[:1])`. -/
def faceEdges (face : List ℕ) : List (ℕ × ℕ) := face.zip (face.rotate 1)

/-- One more use of an edge. -/
def useEdge (sign : ℤ) (edges : EdgeUses) (e : ℕ × ℕ) : EdgeUses :=
  let uses := (edges.get (edgeKey e)).getD (0, 0)
  edges.insert (edgeKey e) (uses.1 + 1, uses.2 + if e.1 < e.2 then sign else -sign)

/-- What is summed up of a cell: `volumes`, `closure`, `cell_area` and `edges`. -/
structure CellSums (R : Type) where
  volume : R
  closure : Vec R
  area : R
  edges : EdgeUses

/-- One more face of a cell. -/
def CellSums.addFace (face : List ℕ) (area : Vec R) (volume mag : R) (sign : ℤ) (c : CellSums R) :
    CellSums R where
  volume := A.add c.volume (A.mul (A.ofRat sign) volume)
  closure := addVec A c.closure (signedVec A sign area)
  area := A.add c.area mag
  edges := (faceEdges face).foldl (useEdge sign) c.edges

/-- A face with its owner, and with its neighbour where it is internal. -/
structure FaceRow where
  face : List ℕ
  owner : ℕ
  neighbour : Option ℕ
  deriving DecidableEq

/-- The cells of a face, with the sign of the face in each. -/
def FaceRow.targets (row : FaceRow) : List (ℕ × ℤ) :=
  (row.owner, 1) :: (row.neighbour.toList.map fun cell => (cell, -1))

/-- One turn of the loop over the faces. -/
def addFaceRow (points : List (Vec R)) (origin : Vec R) (s : List R × List (CellSums R))
    (row : FaceRow) : Except NativeError (List R × List (CellSums R)) :=
  if row.face.length < 3 || !decide row.face.Nodup || row.face.any (points.length ≤ ·) then
    .error .degenerate
  else
    let p := row.face.map fun i => points.getD i (zeroVec A)
    let sums := faceSums A origin p
    match checkFace A p sums.1 with
    | .error e => .error e
    | .ok mag =>
      if row.neighbour.any (· ≤ row.owner) then .error .orientation
      else .ok (s.1 ++ [mag], row.targets.foldl (fun cells target =>
        cells.modify target.1 (CellSums.addFace A row.face sums.1 sums.2 mag target.2)) s.2)

/-- A cell that is not refused. -/
def closedCell (c : CellSums R) : Bool :=
  A.finite c.volume && !A.le c.volume (A.ofRat 0) &&
    !A.lt (A.mul (A.ofRat (1 / 10 ^ 9)) c.area) (norm A c.closure) &&
    c.edges.items.all fun edge => edge.2.1 = 2 && edge.2.2 = 0

/-! ### Meshes -/

/-- A patch: its type, its first face and the number of its faces. -/
structure MeshPatch where
  kind : Text
  start : ℕ
  count : ℕ
  deriving DecidableEq

/-- `Mesh`. -/
structure Mesh (R : Type) where
  points : List (Vec R)
  faces : List (List ℕ)
  owner : List ℕ
  neighbour : List ℕ
  patches : List (Text × MeshPatch)
  areas : List R
  volumes : List R

/-- The faces with their cells. -/
def faceRows (faces : List (List ℕ)) (owner neighbour : List ℕ) : List FaceRow :=
  faces.zipIdx.map fun item =>
    { face := item.1, owner := owner.getD item.2 0, neighbour := neighbour[item.2]? }

/-- `origin`: the mean of the points. -/
def centroid (points : List (Vec R)) : Vec R :=
  let mean := fun coordinate : Vec R → R =>
    A.div (A.sum (points.map coordinate)) (A.ofRat points.length)
  (mean (·.1), mean (·.2.1), mean (·.2.2))

/-- A cell before the loop over the faces. -/
def emptyCell : CellSums R := ⟨A.ofRat 0, zeroVec A, A.ofRat 0, ∅⟩

/-- The loops over the faces and the cells. -/
def checkCells (points : List (Vec R)) (cells : ℕ) (rows : List FaceRow) :
    Except NativeError (List R × List (CellSums R)) := do
  let sums ← rows.foldlM (addFaceRow A points (centroid A points))
    ([], List.replicate cells (emptyCell A))
  if !sums.2.all (closedCell A) then throw .unclosed
  return sums

/-- `[A-Za-z][A-Za-z0-9_.-]*` -/
def isRegionName : Text → Bool
  | [] => false
  | c :: cs => isAsciiLetter c && cs.all fun c => isAsciiWord c || c == '.' || c == '-'

/-- The number that an attribute of a patch starts with. -/
def attributeInteger (attrs : List (Text × Entry)) (key : String) : Except NativeError ℕ :=
  match attrs.lookup key.toList with
  -- the keys of a block are no numbers
  | some (.block _) => .error .integer
  | some (.tokens ts) => (readTokens (List.intercalate [' '] ts) integer).map (·.1)
  | none => .error .truncated

/-- One turn of the loop over the patches. -/
def readPatch (allowProcessor : Bool) (internal faces : ℕ) (patches : List (Text × MeshPatch)) :
    TokenReader (List (Text × MeshPatch)) := do
  let name := stripBy (· == '"') (← pop)
  if !isRegionName name || name ∈ patches.map Prod.fst then throw .patchName
  expect "\x7b"
  let attrs ← block
  expect "\x7d"
  let start ← (attributeInteger attrs "startFace" : Except _ _)
  let count ← (attributeInteger attrs "nFaces" : Except _ _)
  let kind ← match attrs.lookup "type".toList with
    | none => pure []
    | some (.tokens ts) => pure (ts.headD [])
    | some (.block _) => throw .key
  if "processor".toList.isPrefixOf kind ∧ !allowProcessor then throw .processor
  if start < internal ∨ faces < start + count then throw .patchRange
  return patches ++ [(name, ⟨kind, start, count⟩)]

/-- The patches of the file `boundary`. -/
def readPatches (allowProcessor : Bool) (internal faces : ℕ) :
    TokenReader (List (Text × MeshPatch)) := do
  header "boundary"
  let count ← integer
  expect "("
  let patches ← (List.range count).foldlM
    (fun patches _ => readPatch allowProcessor internal faces patches) []
  expect ")"
  return patches

/-- `covered`: the faces of the patches. -/
def covered (patches : List (Text × MeshPatch)) : List ℕ :=
  patches.flatMap fun patch => List.range' patch.2.start patch.2.count

/-- The items of one of the lists of a mesh. -/
def readItems {α : Type} (objectName : String) (read : TokenReader α) : TokenReader (List α) := do
  header objectName
  let n ← integer
  expect "("
  let values ← readTimes n read
  expect ")"
  return values

/-- A list that ends its file. -/
def readFile {α : Type} (text : Text) (read : TokenReader α) : Except NativeError α := do
  let (values, rest) ← readTokens text read
  if rest ≠ [] then throw .trailing
  return values

/-- A coordinate. -/
def coordinate : TokenReader R := do
  match A.number (← pop) with
  | some x => return x
  | none => throw .scalar

def readPoint : TokenReader (Vec R) := do
  expect "("
  let x ← coordinate A
  let y ← coordinate A
  let z ← coordinate A
  expect ")"
  return (x, y, z)

def readFace : TokenReader (List ℕ) := do
  let count ← integer
  expect "("
  let face ← readTimes count integer
  expect ")"
  return face

/-- `read_source` of a file that is there once: its text without comments. -/
def readSource (raw : Text → Option Text) (relative : Text) : Except NativeError Text :=
  match raw relative with
  | none => .error .source
  | some raw =>
    let text := Engineering.stripComments raw
    if '$' ∈ text ∨ '#' ∈ text then .error .directive else .ok text

/-- `cells`. -/
def cellCount (owner neighbour : List ℕ) : ℕ := (owner ++ neighbour).foldl max 0 + 1

/-- `read_mesh`. -/
def readMesh (raw : Text → Option Text) (timeLocal : Bool) (region : Text) (allowProcessor : Bool) :
    Except NativeError (Mesh R) := do
  if region ≠ [] ∧ !isRegionName region then throw .region
  if timeLocal then throw .timeLocal
  let base := "constant/".toList ++ (if region = [] then [] else region ++ ['/']) ++
    "polyMesh/".toList
  let source := fun name : String => readSource raw (base ++ name.toList)
  let points ← readFile (← source "points") (readItems "points" (readPoint A))
  let faces ← readFile (← source "faces") (readItems "faces" readFace)
  let owner ← readFile (← source "owner") (readItems "owner" integer)
  let neighbour ← readFile (← source "neighbour") (readItems "neighbour" integer)
  if points.isEmpty ∨ faces.isEmpty ∨ owner.length ≠ faces.length ∨
      faces.length < neighbour.length then throw .addressing
  let cells := cellCount owner neighbour
  if maxItems < cells ∨ !(List.range cells).all (fun cell => owner.contains cell ||
      neighbour.contains cell) then throw .cells
  let (patches, rest) ← readTokens (← source "boundary")
    (readPatches allowProcessor neighbour.length faces.length)
  if rest ≠ [] ∨ (covered patches).insertionSort (· ≤ ·) ≠
      List.range' neighbour.length (faces.length - neighbour.length) then throw .coverage
  let (areas, sums) ← checkCells A points cells (faceRows faces owner neighbour)
  return { points, faces, owner, neighbour, patches, areas, volumes := sums.map (·.volume) }

end

end Postprocessing
end OpenFoamAgent
