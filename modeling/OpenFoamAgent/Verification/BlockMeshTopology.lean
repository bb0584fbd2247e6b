/-
# The blockMesh topology contract

`tools/block_mesh_topology.py`: the tables `BlockMeshTopologyIR.from_spec` builds from
the blocks of a `TypedBlockMeshFile` of `schemas/engineering.py`, and the issues
`validate_block_mesh_topology` reports. A tuple of vertices is a function from its
positions. Of the specification the fields are kept that the report reads.

What the report decides is in `Verification.TopologyContract`.
-/
import Mathlib.Data.Fin.VecNotation
import Mathlib.Data.Fintype.Basic
import Mathlib.Data.List.Dedup
import Mathlib.Data.List.Sort
import OpenFoamAgent.Library.Grouping
import OpenFoamAgent.Python.Text

namespace OpenFoamAgent
namespace Verification
namespace BlockMesh

open Python

/-! ### The specification -/

/-- The four vertices of a face, in their order. -/
abbrev Face := Fin 4 → ℕ

/-- `BlockMeshBlock`: the eight vertices of a hexahedron. -/
structure BlockMeshBlock where
  vertices : Fin 8 → ℕ
  deriving DecidableEq

/-- `BlockMeshEdge`. -/
structure BlockMeshEdge where
  start : ℕ
  stop : ℕ
  deriving DecidableEq

/-- `BlockMeshBoundaryPatch`. -/
structure BlockMeshBoundaryPatch where
  name : Text
  faces : List Face
  deriving DecidableEq

/-- `TypedBlockMeshFile`. -/
structure TypedBlockMeshFile where
  blocks : List BlockMeshBlock
  edges : List BlockMeshEdge := []
  boundary : List BlockMeshBoundaryPatch
  mergePatchPairs : List (Text × Text) := []
  deriving DecidableEq

/-! ### The tables -/

/-- `_HEX_FACE_SLOTS`. -/
def hexFaceSlots : List (Fin 4 → Fin 8) :=
  [![0, 1, 2, 3], ![4, 5, 6, 7], ![0, 1, 5, 4], ![1, 2, 6, 5], ![2, 3, 7, 6], ![3, 0, 4, 7]]

/-- `_HEX_EDGE_SLOTS`. -/
def hexEdgeSlots : List (Fin 8 × Fin 8) :=
  [(0, 1), (1, 2), (2, 3), (3, 0), (4, 5), (5, 6), (6, 7), (7, 4), (0, 4), (1, 5), (2, 6), (3, 7)]

/-- `_canonical_face`. -/
def canonicalFace (vertices : Face) : List ℕ := (List.ofFn vertices).insertionSort (· ≤ ·)

/-- `_canonical_edge`. -/
def canonicalEdge (first second : ℕ) : ℕ × ℕ :=
  if first < second then (first, second) else (second, first)

/-- `BlockFaceOwner`. -/
structure BlockFaceOwner where
  blockIndex : ℕ
  localFaceIndex : ℕ
  orientedVertices : Face

/-- `BlockMeshTopologyIR`. -/
structure BlockMeshTopologyIR where
  faceOwners : Dict (List ℕ) (List BlockFaceOwner)
  blockEdges : List (ℕ × ℕ)

/-- The faces of one block under their canonical vertices. -/
def blockFaceItems (block : BlockMeshBlock) (blockIndex : ℕ) : List (List ℕ × BlockFaceOwner) :=
  hexFaceSlots.zipIdx.map fun (slots, localFaceIndex) =>
    let oriented := fun i => block.vertices (slots i)
    (canonicalFace oriented, ⟨blockIndex, localFaceIndex, oriented⟩)

/-- `BlockMeshTopologyIR.from_spec`. -/
def BlockMeshTopologyIR.fromSpec (spec : TypedBlockMeshFile) : BlockMeshTopologyIR where
  faceOwners := Dict.group
    (spec.blocks.zipIdx.flatMap fun (block, blockIndex) => blockFaceItems block blockIndex)
  blockEdges := spec.blocks.flatMap fun block =>
    hexEdgeSlots.map fun (firstSlot, secondSlot) =>
      canonicalEdge (block.vertices firstSlot) (block.vertices secondSlot)

/-! ### The issues -/

/-- `BlockMeshTopologyIssue`: its code, with what its message names. -/
inductive BlockMeshTopologyIssue where
  /-- `block[{block_index}] must reference eight distinct vertices; observed {vertices}.` -/
  | degenerateBlockVertices (blockIndex : ℕ) (vertices : Fin 8 → ℕ)
  /-- `face {face} is shared by {len(owners)} blocks {owner_ids}; …` -/
  | nonManifoldBlockFace (face : List ℕ) (ownerIds : List ℕ)
  /-- `boundary patch {name!r} face[{face_index}] {face} must contain four distinct vertex
  indices.` -/
  | degenerateBoundaryFace (name : Text) (faceIndex : ℕ) (face : Face)
  /-- `… does not correspond to any face of any declared hex block.` -/
  | boundaryFaceNotOnBlock (name : Text) (faceIndex : ℕ) (face : Face)
  /-- `… has 2 block owners {owner_ids}; boundary faces must be exterior faces …` -/
  | boundaryFaceIsInternal (name : Text) (faceIndex : ℕ) (face : Face) (ownerIds : List ℕ)
  /-- The same with more than two owners. -/
  | boundaryFaceNonManifold (name : Text) (faceIndex : ℕ) (face : Face) (ownerIds : List ℕ)
  /-- `… duplicates exterior face already assigned to {previous_patch!r}
  face[{previous_index}].` -/
  | boundaryFaceAssignedTwice (name : Text) (faceIndex : ℕ) (face : Face) (previousPatch : Text)
    (previousIndex : ℕ)
  /-- `edge[{edge_index}] starts and ends at vertex {edge.start}.` -/
  | degenerateBlockEdge (edgeIndex : ℕ) (start : ℕ)
  /-- `edge[{edge_index}] ({start}, {end}) is not an edge of any declared hex block; …` -/
  | edgeNotOnBlock (edgeIndex : ℕ) (edge : BlockMeshEdge)
  /-- `edge[{edge_index}] ({start}, {end}) duplicates edge definition edge[{previous}].` -/
  | edgeDefinedTwice (edgeIndex : ℕ) (edge : BlockMeshEdge) (previous : ℕ)
  /-- `mergePatchPairs[{pair_index}] references {first!r} twice.` -/
  | mergePatchSelfPair (pairIndex : ℕ) (name : Text)
  /-- `mergePatchPairs[{pair_index}] references undeclared patch name(s): {missing}` -/
  | mergePatchUnknownPatch (pairIndex : ℕ) (missing : List Text)
  deriving DecidableEq

open BlockMeshTopologyIssue

/-- `len(set(vertices)) != n`, for a tuple of length `n`. -/
def repeats {n : ℕ} (vertices : Fin n → ℕ) : Bool := (List.ofFn vertices).dedup.length != n

/-- The issue of one block. -/
def blockIssues (block : BlockMeshBlock) (blockIndex : ℕ) : List BlockMeshTopologyIssue :=
  if repeats block.vertices then [degenerateBlockVertices blockIndex block.vertices] else []

/-- The issue of one entry of `sorted(ir.face_owners.items())`. -/
def ownerIssues (face : List ℕ) (owners : List BlockFaceOwner) : List BlockMeshTopologyIssue :=
  if owners.length > 2 then [nonManifoldBlockFace face (owners.map (·.blockIndex))] else []

/-- `sorted(ir.face_owners.items())`. The keys differ, so the owners are not compared. -/
def sortedOwners (ir : BlockMeshTopologyIR) : List (List ℕ × List BlockFaceOwner) :=
  ir.faceOwners.items.insertionSort fun a b => a.1 ≤ b.1

/-- The faces of the patches, with the name of the patch and the index in it. -/
def boundaryFaces (spec : TypedBlockMeshFile) : List (Text × ℕ × Face) :=
  spec.boundary.flatMap fun patch =>
    patch.faces.zipIdx.map fun (face, faceIndex) => (patch.name, faceIndex, face)

/-- The loop over the boundary faces, from the faces assigned so far. -/
def boundaryIssues (ir : BlockMeshTopologyIR) (assignedFaces : Dict (List ℕ) (Text × ℕ)) :
    List (Text × ℕ × Face) → List BlockMeshTopologyIssue
  | [] => []
  | (name, faceIndex, face) :: rest =>
    if repeats face then
      degenerateBoundaryFace name faceIndex face :: boundaryIssues ir assignedFaces rest
    else
      let key := canonicalFace face
      match (ir.faceOwners.get key).getD [] with
      | [] => boundaryFaceNotOnBlock name faceIndex face :: boundaryIssues ir assignedFaces rest
      | [_] =>
        match assignedFaces.get key with
        | some (previousPatch, previousIndex) =>
          boundaryFaceAssignedTwice name faceIndex face previousPatch previousIndex ::
            boundaryIssues ir assignedFaces rest
        | none => boundaryIssues ir (assignedFaces.insert key (name, faceIndex)) rest
      | [first, second] =>
        boundaryFaceIsInternal name faceIndex face [first.blockIndex, second.blockIndex] ::
          boundaryIssues ir assignedFaces rest
      | owners =>
        boundaryFaceNonManifold name faceIndex face (owners.map (·.blockIndex)) ::
          boundaryIssues ir assignedFaces rest

/-- The loop over the edges with their indices, from the edges defined so far. -/
def edgeIssues (ir : BlockMeshTopologyIR) (definedEdges : Dict (ℕ × ℕ) ℕ) :
    List (BlockMeshEdge × ℕ) → List BlockMeshTopologyIssue
  | [] => []
  | (edge, edgeIndex) :: rest =>
    if edge.start = edge.stop then
      degenerateBlockEdge edgeIndex edge.start :: edgeIssues ir definedEdges rest
    else
      let key := canonicalEdge edge.start edge.stop
      let notOnBlock := if key ∈ ir.blockEdges then [] else [edgeNotOnBlock edgeIndex edge]
      match definedEdges.get key with
      | some previous =>
        notOnBlock ++ edgeDefinedTwice edgeIndex edge previous :: edgeIssues ir definedEdges rest
      | none => notOnBlock ++ edgeIssues ir (definedEdges.insert key edgeIndex) rest

/-- The issues of one pair of merged patches. -/
def mergeIssues (patchNames : List Text) (pair : Text × Text) (pairIndex : ℕ) :
    List BlockMeshTopologyIssue :=
  let missing := [pair.1, pair.2].filter fun name => name ∉ patchNames
  (if pair.1 = pair.2 then [mergePatchSelfPair pairIndex pair.1] else []) ++
    if missing = [] then [] else [mergePatchUnknownPatch pairIndex missing]

/-- `BlockMeshTopologyReport`. -/
structure BlockMeshTopologyReport where
  ir : BlockMeshTopologyIR
  issues : List BlockMeshTopologyIssue

/-- `BlockMeshTopologyReport.valid`. -/
def BlockMeshTopologyReport.valid (report : BlockMeshTopologyReport) : Bool :=
  report.issues.isEmpty

/-- `validate_block_mesh_topology`. -/
def validateBlockMeshTopology (spec : TypedBlockMeshFile) : BlockMeshTopologyReport :=
  let ir := BlockMeshTopologyIR.fromSpec spec
  { ir
    issues :=
      (spec.blocks.zipIdx.flatMap fun (block, blockIndex) => blockIssues block blockIndex) ++
      ((sortedOwners ir).flatMap fun (face, owners) => ownerIssues face owners) ++
      boundaryIssues ir ∅ (boundaryFaces spec) ++
      edgeIssues ir ∅ spec.edges.zipIdx ++
      spec.mergePatchPairs.zipIdx.flatMap fun (pair, pairIndex) =>
        mergeIssues (spec.boundary.map (·.name)) pair pairIndex }

end BlockMesh
end Verification
end OpenFoamAgent
