/-
# What the topology contract decides

`SoundTopology` says in terms of sets of vertices what a multi-block topology has to
satisfy: eight distinct vertices a block, at most two blocks a face, boundary faces
on exactly one block and assigned once, edges on blocks and defined once, merge
pairs of two declared patches. The report of `validate_block_mesh_topology` has no
issue exactly for these, so its verdict does not depend on the order of anything,
on the orientation of a face, or on the numbers of the vertices.
-/
import Mathlib.Data.Finset.Image
import Mathlib.Data.Sym.Sym2
import Mathlib.Logic.Relation
import OpenFoamAgent.Verification.BlockMeshTopology

namespace OpenFoamAgent
namespace Verification
namespace BlockMesh

open Python

/-! ### The contract -/

/-- The vertices of a face. -/
def vertexSet (face : Face) : Finset ℕ := Finset.univ.image face

/-- The faces of a block, as sets of vertices. -/
def BlockMeshBlock.faceSets (block : BlockMeshBlock) : List (Finset ℕ) :=
  hexFaceSlots.map fun slots => vertexSet fun i => block.vertices (slots i)

/-- The edges of a block. -/
def BlockMeshBlock.edgeSets (block : BlockMeshBlock) : List (Sym2 ℕ) :=
  hexEdgeSlots.map fun slots => s(block.vertices slots.1, block.vertices slots.2)

/-- The ends of an edge. -/
def BlockMeshEdge.ends (edge : BlockMeshEdge) : Sym2 ℕ := s(edge.start, edge.stop)

/-- The number of blocks a face belongs to. -/
def owners (blocks : List BlockMeshBlock) (face : Finset ℕ) : ℕ :=
  blocks.countP fun block => face ∈ block.faceSets

/-- The sets of vertices assigned to the patches. -/
def assignedSets (boundary : List BlockMeshBoundaryPatch) : List (Finset ℕ) :=
  (boundary.flatMap (·.faces)).map vertexSet

/-- The topology is sound. -/
structure SoundTopology (spec : TypedBlockMeshFile) : Prop where
  blocks : ∀ block ∈ spec.blocks, Function.Injective block.vertices
  manifold : ∀ face : Finset ℕ, owners spec.blocks face ≤ 2
  exterior : ∀ patch ∈ spec.boundary, ∀ face ∈ patch.faces,
    owners spec.blocks (vertexSet face) = 1
  assignedOnce : (assignedSets spec.boundary).Nodup
  edges : ∀ edge ∈ spec.edges, edge.start ≠ edge.stop ∧
    ∃ block ∈ spec.blocks, edge.ends ∈ block.edgeSets
  definedOnce : (spec.edges.map (·.ends)).Nodup
  merges : ∀ pair ∈ spec.mergePatchPairs, pair.1 ≠ pair.2 ∧
    pair.1 ∈ spec.boundary.map (·.name) ∧ pair.2 ∈ spec.boundary.map (·.name)

/-! ### Canonical vertices -/

theorem repeats_eq_false_iff {n : ℕ} {vertices : Fin n → ℕ} :
    repeats vertices = false ↔ Function.Injective vertices := by
  rw [repeats, bne_eq_false_iff_eq, ← List.nodup_ofFn]
  constructor
  · intro h
    have hsub := List.dedup_sublist (List.ofFn vertices)
    rw [← hsub.eq_of_length (h.trans (List.length_ofFn (f := vertices)).symm)]
    exact List.nodup_dedup _
  · intro h
    rw [h.dedup, List.length_ofFn]

theorem canonicalFace_eq_iff_perm {f g : Face} :
    canonicalFace f = canonicalFace g ↔ (List.ofFn f).Perm (List.ofFn g) := by
  have hf : (canonicalFace f).Perm (List.ofFn f) := List.perm_insertionSort _ _
  have hg : (canonicalFace g).Perm (List.ofFn g) := List.perm_insertionSort _ _
  constructor
  · intro h
    exact hf.symm.trans (h ▸ hg)
  · intro h
    exact (hf.trans (h.trans hg.symm)).eq_of_sortedLE List.sortedLE_insertionSort
      List.sortedLE_insertionSort

/-- Distinct vertices have the same canonical tuple exactly when they have the same set. -/
theorem canonicalFace_eq_iff {f g : Face} (hf : Function.Injective f) (hg : Function.Injective g) :
    canonicalFace f = canonicalFace g ↔ vertexSet f = vertexSet g := by
  have hmem : ∀ (h : Face) a, a ∈ List.ofFn h ↔ a ∈ vertexSet h := by
    intro h a
    rw [List.mem_ofFn, vertexSet, Finset.mem_image]
    exact exists_congr fun i => (and_iff_right (Finset.mem_univ i)).symm
  rw [canonicalFace_eq_iff_perm,
    List.perm_ext_iff_of_nodup (List.nodup_ofFn.2 hf) (List.nodup_ofFn.2 hg), Finset.ext_iff]
  exact forall_congr' fun a => iff_congr (hmem f a) (hmem g a)

theorem canonicalEdge_eq_iff {a b c d : ℕ} :
    canonicalEdge a b = canonicalEdge c d ↔ s(a, b) = s(c, d) := by
  unfold canonicalEdge
  rw [Sym2.eq_iff]
  split_ifs <;> simp only [Prod.mk.injEq] <;> omega

/-! ### The owners of a face -/

/-- The slots of a face, as a set. -/
def slotSets : List (Finset (Fin 8)) := hexFaceSlots.map fun slots => Finset.univ.image slots

theorem slots_injective : ∀ slots ∈ hexFaceSlots, Function.Injective slots := by
  have h : hexFaceSlots.all fun slots => (List.ofFn slots).Nodup := by decide
  intro slots hslots
  exact List.nodup_ofFn.1 (of_decide_eq_true (List.all_eq_true.1 h slots hslots))

theorem nodup_slotSets : slotSets.Nodup := by
  decide

theorem faceSets_eq (block : BlockMeshBlock) :
    block.faceSets = slotSets.map fun slots => slots.image block.vertices := by
  rw [BlockMeshBlock.faceSets, slotSets, List.map_map]
  refine List.map_congr_left fun slots _ => ?_
  exact (Finset.image_image (f := slots) (g := block.vertices)).symm

/-- A block with eight distinct vertices has six distinct faces. -/
theorem nodup_faceSets {block : BlockMeshBlock} (h : Function.Injective block.vertices) :
    block.faceSets.Nodup := by
  rw [faceSets_eq]
  exact nodup_slotSets.map (Finset.image_injective h)

/-- The faces of a block under the canonical tuple of a face: one where it is a face of the
block, and none where it is not. -/
theorem countP_blockFaceItems {block : BlockMeshBlock} (hblock : Function.Injective block.vertices)
    {face : Face} (hface : Function.Injective face) (blockIndex : ℕ) :
    (blockFaceItems block blockIndex).countP (fun item => item.1 = canonicalFace face) =
      if vertexSet face ∈ block.faceSets then 1 else 0 := by
  have hslots : (blockFaceItems block blockIndex).countP (fun item => item.1 = canonicalFace face) =
      hexFaceSlots.countP fun slots =>
        canonicalFace (fun i => block.vertices (slots i)) = canonicalFace face := by
    rw [blockFaceItems, List.countP_map]
    conv_rhs => rw [← List.zipIdx_map_fst 0 hexFaceSlots, List.countP_map]
    rfl
  have hsets : (hexFaceSlots.countP fun slots =>
        canonicalFace (fun i => block.vertices (slots i)) = canonicalFace face) =
      block.faceSets.count (vertexSet face) := by
    rw [List.count, BlockMeshBlock.faceSets, List.countP_map]
    refine List.countP_congr fun slots hslots => ?_
    rw [decide_eq_true_iff, Function.comp_apply, beq_iff_eq]
    exact canonicalFace_eq_iff (hblock.comp (slots_injective slots hslots)) hface
  rw [hslots, hsets, (nodup_faceSets hblock).count]

/-- Where each block has distinct vertices, the table gives a face its owners. -/
theorem length_faceOwners {spec : TypedBlockMeshFile}
    (hblocks : ∀ block ∈ spec.blocks, Function.Injective block.vertices) {face : Face}
    (hface : Function.Injective face) :
    (((BlockMeshTopologyIR.fromSpec spec).faceOwners.get (canonicalFace face)).getD []).length =
      owners spec.blocks (vertexSet face) := by
  have hcount : ∀ (blocks : List BlockMeshBlock) n,
      (∀ block ∈ blocks, Function.Injective block.vertices) →
      ((blocks.zipIdx n).flatMap fun item =>
        blockFaceItems item.1 item.2).countP (fun item => item.1 = canonicalFace face) =
        owners blocks (vertexSet face) := by
    intro blocks
    induction blocks with
    | nil => exact fun _ _ => rfl
    | cons block blocks ih =>
      intro n hall
      obtain ⟨hblock, hrest⟩ := List.forall_mem_cons.1 hall
      rw [List.zipIdx_cons, List.flatMap_cons, List.countP_append, ih (n + 1) hrest,
        countP_blockFaceItems hblock hface, owners, owners, List.countP_cons, Nat.add_comm]
      simp only [decide_eq_true_eq]
  rw [BlockMeshTopologyIR.fromSpec, Dict.get_group, List.length_map, ← List.countP_eq_length_filter]
  exact hcount spec.blocks 0 hblocks

/-! ### The issues -/

theorem exists_mem_zipIdx {α : Type} {l : List α} {P : α → Prop} :
    (∃ item ∈ l.zipIdx, P item.1) ↔ ∃ a ∈ l, P a := by
  conv_rhs => rw [← List.zipIdx_map_fst 0 l]
  simp only [List.mem_map, exists_exists_and_eq_and]

theorem blockIssues_eq_nil_iff (blocks : List BlockMeshBlock) :
    (blocks.zipIdx.flatMap fun (block, blockIndex) => blockIssues block blockIndex) = [] ↔
      ∀ block ∈ blocks, Function.Injective block.vertices := by
  have hone : ∀ block blockIndex, blockIssues block blockIndex = [] ↔
      Function.Injective block.vertices := by
    intro block blockIndex
    rw [← repeats_eq_false_iff, blockIssues]
    split_ifs with h <;> simp [h]
  rw [List.flatMap_eq_nil_iff]
  conv_rhs => rw [← List.zipIdx_map_fst 0 blocks, List.forall_mem_map]
  exact forall₂_congr fun item _ => hone item.1 item.2

/-- A face of some block, under its canonical tuple. -/
theorem mem_faceOwners {spec : TypedBlockMeshFile} {key : List ℕ} :
    key ∈ (BlockMeshTopologyIR.fromSpec spec).faceOwners ↔ ∃ block ∈ spec.blocks,
      ∃ slots ∈ hexFaceSlots, canonicalFace (fun i => block.vertices (slots i)) = key := by
  rw [BlockMeshTopologyIR.fromSpec, Dict.mem_group, List.map_flatMap, List.mem_flatMap]
  refine Iff.trans (exists_congr fun item => and_congr_right fun _ => ?_) exists_mem_zipIdx
  dsimp only
  rw [blockFaceItems, List.map_map, List.mem_map]
  exact exists_mem_zipIdx
    (P := fun slots : Fin 4 → Fin 8 => canonicalFace (fun i => item.1.vertices (slots i)) = key)

theorem ownerIssues_eq_nil_iff {spec : TypedBlockMeshFile}
    (hblocks : ∀ block ∈ spec.blocks, Function.Injective block.vertices) :
    ((sortedOwners (BlockMeshTopologyIR.fromSpec spec)).flatMap fun (face, owners) =>
      ownerIssues face owners) = [] ↔ ∀ face, owners spec.blocks face ≤ 2 := by
  have hone : ∀ key found, ownerIssues key found = [] ↔ found.length ≤ 2 := by
    intro key found
    rw [ownerIssues]
    split_ifs with h
    · exact iff_of_false nofun (Nat.not_le.2 h)
    · exact iff_of_true rfl (Nat.not_lt.1 h)
  rw [List.flatMap_eq_nil_iff]
  constructor
  · intro h face
    by_cases hzero : owners spec.blocks face = 0
    · rw [hzero]
      exact Nat.zero_le 2
    obtain ⟨block, hblock, hface⟩ := List.countP_pos_iff.1 (Nat.pos_of_ne_zero hzero)
    obtain ⟨slots, hslots, rfl⟩ := List.mem_map.1 (of_decide_eq_true hface)
    have hinj : Function.Injective fun i => block.vertices (slots i) :=
      (hblocks block hblock).comp (slots_injective slots hslots)
    rw [← length_faceOwners hblocks hinj]
    have hkey := mem_faceOwners.2 ⟨block, hblock, slots, hslots, rfl⟩
    obtain ⟨found, hfound⟩ := Option.isSome_iff_exists.1 (Dict.get_isSome.2 hkey)
    have hitem := h (_, found) ((List.mem_insertionSort _).2 (Dict.mem_items.2 hfound))
    rw [hfound]
    exact (hone _ _).1 hitem
  · intro h item hitem
    have hget := Dict.mem_items.1 ((List.mem_insertionSort _).1 hitem)
    obtain ⟨block, hblock, slots, hslots, hkey⟩ :=
      mem_faceOwners.1 (Dict.get_isSome.1 (by rw [hget]; rfl) : item.1 ∈ _)
    have hinj := (hblocks block hblock).comp (slots_injective slots hslots)
    have hlength := length_faceOwners hblocks hinj
    rw [Function.comp_def, hkey, hget] at hlength
    refine (hone _ _).2 ?_
    rw [show item.2.length = _ from hlength]
    exact h _

/-- The faces are accepted: each has distinct vertices and one owner, and none is assigned
twice or was assigned before. -/
theorem boundaryIssues_eq_nil_iff (ir : BlockMeshTopologyIR)
    (assignedFaces : Dict (List ℕ) (Text × ℕ)) (items : List (Text × ℕ × Face)) :
    boundaryIssues ir assignedFaces items = [] ↔
      (∀ item ∈ items, Function.Injective item.2.2 ∧
        ((ir.faceOwners.get (canonicalFace item.2.2)).getD []).length = 1) ∧
      assignedFaces.Fresh (items.map fun item => canonicalFace item.2.2) := by
  induction items generalizing assignedFaces with
  | nil => exact iff_of_true rfl ⟨nofun, Dict.fresh_nil _⟩
  | cons item items ih =>
    obtain ⟨name, faceIndex, face⟩ := item
    rw [List.forall_mem_cons, List.map_cons, Dict.fresh_cons (name, faceIndex)]
    dsimp only
    unfold boundaryIssues
    cases hrep : repeats face with
    | true =>
      rw [if_pos rfl]
      refine iff_of_false nofun fun h => ?_
      rw [repeats_eq_false_iff.2 h.1.1.1] at hrep
      cases hrep
    | false =>
      rw [if_neg (by decide)]
      dsimp only
      have hinj := repeats_eq_false_iff.1 hrep
      rcases hown : (ir.faceOwners.get (canonicalFace face)).getD [] with
        _ | ⟨first, _ | ⟨second, _ | ⟨third, rest⟩⟩⟩
      · exact iff_of_false nofun fun h => nomatch h.1.1.2
      · rcases hass : assignedFaces.get (canonicalFace face) with _ | ⟨previousPatch, previousIndex⟩
        · dsimp only
          rw [ih]
          constructor
          · rintro ⟨hall, hfresh⟩
            exact ⟨⟨⟨hinj, rfl⟩, hall⟩, rfl, hfresh⟩
          · rintro ⟨⟨-, hall⟩, -, hfresh⟩
            exact ⟨hall, hfresh⟩
        · exact iff_of_false nofun fun h => nomatch h.2.1
      · exact iff_of_false nofun fun h => nomatch h.1.1.2
      · exact iff_of_false nofun fun h => nomatch h.1.1.2

theorem mem_blockEdges {spec : TypedBlockMeshFile} {a b : ℕ} :
    canonicalEdge a b ∈ (BlockMeshTopologyIR.fromSpec spec).blockEdges ↔
      ∃ block ∈ spec.blocks, s(a, b) ∈ block.edgeSets := by
  simp only [BlockMeshTopologyIR.fromSpec, BlockMeshBlock.edgeSets, List.mem_flatMap, List.mem_map,
    canonicalEdge_eq_iff]

/-- The edges are accepted: each has two ends and is an edge of a block, and none is defined
twice or was defined before. -/
theorem edgeIssues_eq_nil_iff (ir : BlockMeshTopologyIR) (definedEdges : Dict (ℕ × ℕ) ℕ)
    (items : List (BlockMeshEdge × ℕ)) :
    edgeIssues ir definedEdges items = [] ↔
      (∀ item ∈ items, item.1.start ≠ item.1.stop ∧
        canonicalEdge item.1.start item.1.stop ∈ ir.blockEdges) ∧
      definedEdges.Fresh (items.map fun item => canonicalEdge item.1.start item.1.stop) := by
  induction items generalizing definedEdges with
  | nil => exact iff_of_true rfl ⟨nofun, Dict.fresh_nil _⟩
  | cons item items ih =>
    obtain ⟨edge, edgeIndex⟩ := item
    rw [List.forall_mem_cons, List.map_cons, Dict.fresh_cons edgeIndex]
    dsimp only
    unfold edgeIssues
    by_cases hends : edge.start = edge.stop
    · rw [if_pos hends]
      exact iff_of_false nofun fun h => h.1.1.1 hends
    · rw [if_neg hends]
      dsimp only
      rcases hdef : definedEdges.get (canonicalEdge edge.start edge.stop) with _ | previous
      · dsimp only
        rw [List.append_eq_nil_iff, ih]
        split_ifs with hblock
        · constructor
          · rintro ⟨-, hall, hfresh⟩
            exact ⟨⟨⟨hends, hblock⟩, hall⟩, rfl, hfresh⟩
          · rintro ⟨⟨-, hall⟩, -, hfresh⟩
            exact ⟨rfl, hall, hfresh⟩
        · exact iff_of_false nofun fun h => hblock h.1.1.2
      · refine iff_of_false (fun h => ?_) fun h => nomatch h.2.1
        exact nomatch (List.append_eq_nil_iff.1 h).2

theorem mergeIssues_eq_nil_iff (names : List Text) (pair : Text × Text) (pairIndex : ℕ) :
    mergeIssues names pair pairIndex = [] ↔
      pair.1 ≠ pair.2 ∧ pair.1 ∈ names ∧ pair.2 ∈ names := by
  have hmissing : ([pair.1, pair.2].filter fun name => name ∉ names) = [] ↔
      pair.1 ∈ names ∧ pair.2 ∈ names := by
    simp [List.filter_eq_nil_iff]
  rw [← hmissing, mergeIssues, List.append_eq_nil_iff]
  by_cases hself : pair.1 = pair.2
  · rw [if_pos hself]
    exact iff_of_false (fun h => nomatch h.1) fun h => h.1 hself
  · rw [if_neg hself, and_iff_right rfl, and_iff_right hself]
    split_ifs with hnone
    · exact iff_of_true rfl hnone
    · exact iff_of_false nofun hnone

/-! ### The verdict -/

theorem map_boundaryFaces (spec : TypedBlockMeshFile) :
    (boundaryFaces spec).map (fun item => item.2.2) = spec.boundary.flatMap (·.faces) := by
  rw [boundaryFaces, List.map_flatMap]
  refine List.flatMap_congr fun patch _ => ?_
  rw [List.map_map]
  exact List.zipIdx_map_fst 0 patch.faces

theorem forall_assignedSets {boundary : List BlockMeshBoundaryPatch} {P : Finset ℕ → Prop} :
    (∀ patch ∈ boundary, ∀ face ∈ patch.faces, P (vertexSet face)) ↔
      ∀ face ∈ assignedSets boundary, P face := by
  rw [assignedSets, List.forall_mem_map]
  simp only [List.mem_flatMap, forall_exists_index, and_imp]
  exact ⟨fun h face patch hp => h patch hp face, fun h patch hp face => h face patch hp⟩

/-- A face of a block has four distinct vertices. -/
theorem injective_of_owners {blocks : List BlockMeshBlock}
    (hblocks : ∀ block ∈ blocks, Function.Injective block.vertices) {face : Face}
    (h : owners blocks (vertexSet face) = 1) : Function.Injective face := by
  obtain ⟨block, hblock, hface⟩ := List.countP_pos_iff.1 (h ▸ Nat.one_pos : 0 < owners _ _)
  obtain ⟨slots, hslots, hset⟩ := List.mem_map.1 (of_decide_eq_true hface)
  have hcard : (vertexSet face).card = (Finset.univ : Finset (Fin 4)).card := by
    rw [← hset, vertexSet]
    exact Finset.card_image_of_injective _
      ((hblocks block hblock).comp (slots_injective slots hslots))
  have hon := Finset.card_image_iff.1 hcard
  rw [Finset.coe_univ] at hon
  exact Set.injOn_univ.1 hon

theorem boundary_accepted_iff {spec : TypedBlockMeshFile}
    (hblocks : ∀ block ∈ spec.blocks, Function.Injective block.vertices) :
    boundaryIssues (BlockMeshTopologyIR.fromSpec spec) ∅ (boundaryFaces spec) = [] ↔
      (∀ patch ∈ spec.boundary, ∀ face ∈ patch.faces,
        owners spec.blocks (vertexSet face) = 1) ∧
      (assignedSets spec.boundary).Nodup := by
  have hfaces : ∀ P : Face → Prop, (∀ item ∈ boundaryFaces spec, P item.2.2) ↔
      ∀ face ∈ spec.boundary.flatMap (·.faces), P face := by
    intro P
    rw [← map_boundaryFaces, List.forall_mem_map]
  have hkeys : (boundaryFaces spec).map (fun item => canonicalFace item.2.2) =
      (spec.boundary.flatMap (·.faces)).map canonicalFace := by
    rw [← map_boundaryFaces, List.map_map]
    rfl
  have hpatches : (∀ patch ∈ spec.boundary, ∀ face ∈ patch.faces,
      owners spec.blocks (vertexSet face) = 1) ↔ ∀ face ∈ spec.boundary.flatMap (·.faces),
        owners spec.blocks (vertexSet face) = 1 := by
    refine (forall_assignedSets (P := fun face => owners spec.blocks face = 1)).trans ?_
    rw [assignedSets, List.forall_mem_map]
  rw [boundaryIssues_eq_nil_iff, Dict.fresh_empty, hkeys, hpatches,
    hfaces fun face => Function.Injective face ∧
      (((BlockMeshTopologyIR.fromSpec spec).faceOwners.get (canonicalFace face)).getD []).length =
        1]
  have howned : (∀ face ∈ spec.boundary.flatMap (·.faces), Function.Injective face ∧
      (((BlockMeshTopologyIR.fromSpec spec).faceOwners.get (canonicalFace face)).getD []).length =
        1) ↔ ∀ face ∈ spec.boundary.flatMap (·.faces), owners spec.blocks (vertexSet face) = 1 := by
    refine forall₂_congr fun face _ => ⟨fun h => ?_, fun h => ?_⟩
    · rw [← length_faceOwners hblocks h.1, h.2]
    · have hinj := injective_of_owners hblocks h
      exact ⟨hinj, by rw [length_faceOwners hblocks hinj, h]⟩
  rw [howned]
  refine and_congr_right fun hone => ?_
  rw [assignedSets, List.Nodup, List.Nodup, List.pairwise_map, List.pairwise_map]
  refine List.Pairwise.iff_of_mem fun {f g} hf hg => not_congr (canonicalFace_eq_iff ?_ ?_)
  · exact injective_of_owners hblocks (hone f hf)
  · exact injective_of_owners hblocks (hone g hg)

theorem edges_accepted_iff (spec : TypedBlockMeshFile) :
    edgeIssues (BlockMeshTopologyIR.fromSpec spec) ∅ spec.edges.zipIdx = [] ↔
      (∀ edge ∈ spec.edges, edge.start ≠ edge.stop ∧
        ∃ block ∈ spec.blocks, edge.ends ∈ block.edgeSets) ∧
      (spec.edges.map (·.ends)).Nodup := by
  have hedges : spec.edges.zipIdx.map Prod.fst = spec.edges := List.zipIdx_map_fst 0 spec.edges
  have hkeys : spec.edges.zipIdx.map (fun item => canonicalEdge item.1.start item.1.stop) =
      spec.edges.map fun edge => canonicalEdge edge.start edge.stop := by
    conv_rhs => rw [← hedges, List.map_map]
    rfl
  rw [edgeIssues_eq_nil_iff, Dict.fresh_empty, hkeys]
  refine and_congr ?_ ?_
  · conv_rhs => rw [← hedges, List.forall_mem_map]
    exact forall₂_congr fun item _ => and_congr_right fun _ => mem_blockEdges
  · rw [List.Nodup, List.Nodup, List.pairwise_map, List.pairwise_map]
    exact List.Pairwise.iff_of_mem fun _ _ => not_congr canonicalEdge_eq_iff

theorem merges_accepted_iff (spec : TypedBlockMeshFile) :
    (spec.mergePatchPairs.zipIdx.flatMap fun (pair, pairIndex) =>
      mergeIssues (spec.boundary.map (·.name)) pair pairIndex) = [] ↔
      ∀ pair ∈ spec.mergePatchPairs, pair.1 ≠ pair.2 ∧
        pair.1 ∈ spec.boundary.map (·.name) ∧ pair.2 ∈ spec.boundary.map (·.name) := by
  rw [List.flatMap_eq_nil_iff]
  conv_rhs => rw [← List.zipIdx_map_fst 0 spec.mergePatchPairs, List.forall_mem_map]
  exact forall₂_congr fun item _ => mergeIssues_eq_nil_iff _ item.1 item.2

/-- The report has no issue exactly for a sound topology. -/
theorem valid_iff_sound (spec : TypedBlockMeshFile) :
    (validateBlockMeshTopology spec).valid ↔ SoundTopology spec := by
  rw [BlockMeshTopologyReport.valid, List.isEmpty_iff, validateBlockMeshTopology]
  simp only [List.append_eq_nil_iff]
  rw [blockIssues_eq_nil_iff, edges_accepted_iff, merges_accepted_iff]
  constructor
  · rintro ⟨⟨⟨⟨hblocks, howners⟩, hboundary⟩, hedges, hdefined⟩, hmerges⟩
    obtain ⟨hexterior, hassigned⟩ := (boundary_accepted_iff hblocks).1 hboundary
    exact ⟨hblocks, (ownerIssues_eq_nil_iff hblocks).1 howners, hexterior, hassigned, hedges,
      hdefined, hmerges⟩
  · rintro ⟨hblocks, hmanifold, hexterior, hassigned, hedges, hdefined, hmerges⟩
    exact ⟨⟨⟨⟨hblocks, (ownerIssues_eq_nil_iff hblocks).2 hmanifold⟩,
      (boundary_accepted_iff hblocks).2 ⟨hexterior, hassigned⟩⟩, hedges, hdefined⟩, hmerges⟩

/-! ### Rearrangements -/

/-- The vertices of a face listed from another one on, or the other way round. -/
inductive Turned : Face → Face → Prop
  | same (face : Face) : Turned face face
  | rotate (face : Face) : Turned face fun i => face (i + 1)
  | reverse (face : Face) : Turned face fun i => face i.rev

/-- The block with its vertices under other numbers. -/
def BlockMeshBlock.rename (σ : ℕ → ℕ) (block : BlockMeshBlock) : BlockMeshBlock :=
  ⟨fun i => σ (block.vertices i)⟩

/-- The edge with its vertices under other numbers. -/
def BlockMeshEdge.rename (σ : ℕ → ℕ) (edge : BlockMeshEdge) : BlockMeshEdge :=
  ⟨σ edge.start, σ edge.stop⟩

/-- The patch with its vertices under other numbers. -/
def BlockMeshBoundaryPatch.rename (σ : ℕ → ℕ) (patch : BlockMeshBoundaryPatch) :
    BlockMeshBoundaryPatch :=
  { patch with faces := patch.faces.map fun face i => σ (face i) }

/-- The specification with its vertices under other numbers. -/
def TypedBlockMeshFile.rename (σ : ℕ → ℕ) (spec : TypedBlockMeshFile) : TypedBlockMeshFile :=
  { spec with
    blocks := spec.blocks.map (·.rename σ)
    edges := spec.edges.map (·.rename σ)
    boundary := spec.boundary.map (·.rename σ) }

/-- One rearrangement of a specification: its blocks, its patches or the faces of its patches
in another order, its faces turned, or its vertices renamed. -/
inductive Rearranged : TypedBlockMeshFile → TypedBlockMeshFile → Prop
  | blocks (spec : TypedBlockMeshFile) {blocks : List BlockMeshBlock}
    (h : spec.blocks.Perm blocks) : Rearranged spec { spec with blocks }
  | patches (spec : TypedBlockMeshFile) {boundary : List BlockMeshBoundaryPatch}
    (h : spec.boundary.Perm boundary) : Rearranged spec { spec with boundary }
  | faces (spec : TypedBlockMeshFile) {boundary : List BlockMeshBoundaryPatch}
    (h : List.Forall₂ (fun patch patch' => patch.name = patch'.name ∧
      patch.faces.Perm patch'.faces) spec.boundary boundary) :
    Rearranged spec { spec with boundary }
  | turn (spec : TypedBlockMeshFile) {boundary : List BlockMeshBoundaryPatch}
    (h : List.Forall₂ (fun patch patch' => patch.name = patch'.name ∧
      List.Forall₂ Turned patch.faces patch'.faces) spec.boundary boundary) :
    Rearranged spec { spec with boundary }
  | rename (spec : TypedBlockMeshFile) {σ : ℕ → ℕ} (h : Function.Injective σ) :
    Rearranged spec (spec.rename σ)

theorem Turned.vertexSet_eq {face face' : Face} (h : Turned face face') :
    vertexSet face = vertexSet face' := by
  have hcomp : ∀ π : Fin 4 → Fin 4, Function.Surjective π →
      vertexSet face = vertexSet fun i => face (π i) := by
    intro π hπ
    rw [vertexSet, ← Finset.image_univ_of_surjective hπ, Finset.image_image]
    rfl
  cases h with
  | same => rfl
  | rotate => exact hcomp (fun i => i + 1) (by decide)
  | reverse => exact hcomp Fin.rev Fin.rev_surjective

/-- What counts of a specification is which blocks it has, which sets its patches are assigned
and under which names. -/
theorem SoundTopology.congr {spec spec' : TypedBlockMeshFile}
    (hblocks : spec.blocks.Perm spec'.blocks)
    (hassigned : (assignedSets spec.boundary).Perm (assignedSets spec'.boundary))
    (hnames : (spec.boundary.map (·.name)).Perm (spec'.boundary.map (·.name)))
    (hedges : spec.edges = spec'.edges) (hmerges : spec.mergePatchPairs = spec'.mergePatchPairs)
    (h : SoundTopology spec) : SoundTopology spec' := by
  have howners : ∀ face, owners spec.blocks face = owners spec'.blocks face := fun face =>
    hblocks.countP_eq _
  refine ⟨fun block hb => h.blocks block (hblocks.mem_iff.2 hb), fun face => ?_, ?_, ?_, ?_, ?_, ?_⟩
  · rw [← howners]
    exact h.manifold face
  · refine (forall_assignedSets (P := fun face => owners spec'.blocks face = 1)).2 ?_
    intro face hface
    rw [← howners]
    exact (forall_assignedSets (P := fun face => owners spec.blocks face = 1)).1 h.exterior face
      (hassigned.mem_iff.2 hface)
  · exact hassigned.nodup_iff.1 h.assignedOnce
  · rw [← hedges]
    refine fun edge he => (h.edges edge he).imp_right ?_
    exact fun ⟨block, hb, hmem⟩ => ⟨block, hblocks.mem_iff.1 hb, hmem⟩
  · rw [← hedges]
    exact h.definedOnce
  · rw [← hmerges]
    exact fun pair hp => (h.merges pair hp).imp_right
      (And.imp hnames.mem_iff.1 hnames.mem_iff.1)

/-! ### Other numbers for the vertices -/

variable {σ : ℕ → ℕ}

theorem faceSets_rename (σ : ℕ → ℕ) (block : BlockMeshBlock) :
    (block.rename σ).faceSets = block.faceSets.map (Finset.image σ) := by
  rw [BlockMeshBlock.faceSets, BlockMeshBlock.faceSets, List.map_map]
  refine List.map_congr_left fun slots _ => ?_
  exact (Finset.image_image (f := fun i => block.vertices (slots i)) (g := σ)).symm

theorem edgeSets_rename (σ : ℕ → ℕ) (block : BlockMeshBlock) :
    (block.rename σ).edgeSets = block.edgeSets.map (Sym2.map σ) := by
  rw [BlockMeshBlock.edgeSets, BlockMeshBlock.edgeSets, List.map_map]
  rfl

theorem owners_rename (hσ : Function.Injective σ) (blocks : List BlockMeshBlock)
    (face : Finset ℕ) :
    owners (blocks.map (·.rename σ)) (face.image σ) = owners blocks face := by
  rw [owners, owners, List.countP_map]
  refine List.countP_congr fun block _ => ?_
  rw [Function.comp_apply, decide_eq_true_iff, decide_eq_true_iff, faceSets_rename,
    List.mem_map_of_injective (Finset.image_injective hσ)]

theorem assignedSets_rename (σ : ℕ → ℕ) (boundary : List BlockMeshBoundaryPatch) :
    assignedSets (boundary.map (·.rename σ)) =
      (assignedSets boundary).map (Finset.image σ) := by
  rw [assignedSets, assignedSets, List.map_map, List.flatMap_map, List.map_flatMap,
    List.map_flatMap]
  refine List.flatMap_congr fun patch _ => ?_
  rw [BlockMeshBoundaryPatch.rename, List.map_map]
  refine List.map_congr_left fun face _ => ?_
  exact (Finset.image_image (f := face) (g := σ)).symm

/-- Soundness does not depend on the numbers of the vertices. -/
theorem soundTopology_rename_iff (hσ : Function.Injective σ) (spec : TypedBlockMeshFile) :
    SoundTopology (spec.rename σ) ↔ SoundTopology spec := by
  have hnames : (spec.boundary.map (·.rename σ)).map (·.name) = spec.boundary.map (·.name) := by
    rw [List.map_map]
    rfl
  have hends : (spec.edges.map (·.rename σ)).map (·.ends) =
      (spec.edges.map (·.ends)).map (Sym2.map σ) := by
    rw [List.map_map, List.map_map]
    rfl
  have hblocks : (∀ block ∈ (spec.rename σ).blocks, Function.Injective block.vertices) ↔
      ∀ block ∈ spec.blocks, Function.Injective block.vertices := by
    rw [TypedBlockMeshFile.rename, List.forall_mem_map]
    exact forall₂_congr fun block _ => hσ.of_comp_iff block.vertices
  have hmanifold : (∀ face, owners (spec.rename σ).blocks face ≤ 2) ↔
      ∀ face, owners spec.blocks face ≤ 2 := by
    constructor
    · intro h face
      rw [← owners_rename hσ]
      exact h _
    · intro h face
      by_cases hzero : owners (spec.rename σ).blocks face = 0
      · rw [hzero]
        exact Nat.zero_le 2
      obtain ⟨block', hblock', hface⟩ := List.countP_pos_iff.1 (Nat.pos_of_ne_zero hzero)
      obtain ⟨block, -, rfl⟩ := List.mem_map.1 hblock'
      have hmem := of_decide_eq_true hface
      rw [faceSets_rename] at hmem
      obtain ⟨face', -, rfl⟩ := List.mem_map.1 hmem
      rw [TypedBlockMeshFile.rename, owners_rename hσ]
      exact h face'
  have hexterior : (∀ face ∈ assignedSets (spec.rename σ).boundary,
      owners (spec.rename σ).blocks face = 1) ↔ ∀ face ∈ assignedSets spec.boundary,
        owners spec.blocks face = 1 := by
    rw [TypedBlockMeshFile.rename, assignedSets_rename, List.forall_mem_map]
    exact forall₂_congr fun face _ => by rw [owners_rename hσ]
  have hassigned : (assignedSets (spec.rename σ).boundary).Nodup ↔
      (assignedSets spec.boundary).Nodup := by
    rw [TypedBlockMeshFile.rename, assignedSets_rename,
      List.nodup_map_iff (Finset.image_injective hσ)]
  have hedges : (∀ edge ∈ (spec.rename σ).edges, edge.start ≠ edge.stop ∧
      ∃ block ∈ (spec.rename σ).blocks, edge.ends ∈ block.edgeSets) ↔
      ∀ edge ∈ spec.edges, edge.start ≠ edge.stop ∧
        ∃ block ∈ spec.blocks, edge.ends ∈ block.edgeSets := by
    rw [TypedBlockMeshFile.rename, List.forall_mem_map]
    refine forall₂_congr fun edge _ => and_congr hσ.ne_iff ?_
    simp only [List.mem_map, exists_exists_and_eq_and, edgeSets_rename]
    refine exists_congr fun block => and_congr_right fun _ => ?_
    rw [← List.mem_map, ← List.mem_map_of_injective (Sym2.map.injective hσ) (a := edge.ends)]
    rfl
  have hdefined : ((spec.rename σ).edges.map (·.ends)).Nodup ↔
      (spec.edges.map (·.ends)).Nodup := by
    rw [TypedBlockMeshFile.rename, hends, List.nodup_map_iff (Sym2.map.injective hσ)]
  have hexterior' := forall_assignedSets.trans (hexterior.trans forall_assignedSets.symm)
  constructor
  · intro h
    refine ⟨hblocks.1 h.blocks, hmanifold.1 h.manifold, hexterior'.1 h.exterior,
      hassigned.1 h.assignedOnce, hedges.1 h.edges, hdefined.1 h.definedOnce, ?_⟩
    rw [← hnames]
    exact h.merges
  · intro h
    refine ⟨hblocks.2 h.blocks, hmanifold.2 h.manifold, hexterior'.2 h.exterior,
      hassigned.2 h.assignedOnce, hedges.2 h.edges, hdefined.2 h.definedOnce, ?_⟩
    rw [TypedBlockMeshFile.rename, hnames]
    exact h.merges

/-! ### The verdict of a rearrangement -/

/-- Patches of the same names whose faces are the same sets, patch by patch. -/
theorem same_assignedSets {boundary boundary' : List BlockMeshBoundaryPatch}
    {R : List Face → List Face → Prop}
    (hR : ∀ faces faces', R faces faces' → (faces.map vertexSet).Perm (faces'.map vertexSet))
    (h : List.Forall₂ (fun patch patch' : BlockMeshBoundaryPatch => patch.name = patch'.name ∧
      R patch.faces patch'.faces) boundary boundary') :
    boundary.map (·.name) = boundary'.map (·.name) ∧
      (assignedSets boundary).Perm (assignedSets boundary') := by
  induction h with
  | nil => exact ⟨rfl, .refl _⟩
  | cons hpatch _ ih =>
    obtain ⟨hname, hfaces⟩ := hpatch
    rw [List.map_cons, List.map_cons, hname, ih.1]
    refine ⟨rfl, ?_⟩
    rw [assignedSets, assignedSets, List.flatMap_cons, List.flatMap_cons, List.map_append,
      List.map_append]
    exact (hR _ _ hfaces).append ih.2

theorem map_vertexSet_of_turned {faces faces' : List Face} (h : List.Forall₂ Turned faces faces') :
    faces.map vertexSet = faces'.map vertexSet := by
  induction h with
  | nil => rfl
  | cons hface _ ih => rw [List.map_cons, List.map_cons, hface.vertexSet_eq, ih]

/-- A rearrangement that keeps the numbers of the vertices keeps what counts. -/
theorem SoundTopology.congr_iff {spec spec' : TypedBlockMeshFile}
    (hblocks : spec.blocks.Perm spec'.blocks)
    (hassigned : (assignedSets spec.boundary).Perm (assignedSets spec'.boundary))
    (hnames : (spec.boundary.map (·.name)).Perm (spec'.boundary.map (·.name)))
    (hedges : spec.edges = spec'.edges) (hmerges : spec.mergePatchPairs = spec'.mergePatchPairs) :
    SoundTopology spec ↔ SoundTopology spec' :=
  ⟨congr hblocks hassigned hnames hedges hmerges,
    congr hblocks.symm hassigned.symm hnames.symm hedges.symm hmerges.symm⟩

theorem Rearranged.sound_iff {spec spec' : TypedBlockMeshFile} (h : Rearranged spec spec') :
    SoundTopology spec ↔ SoundTopology spec' := by
  cases h with
  | blocks h => exact SoundTopology.congr_iff h (.refl _) (.refl _) rfl rfl
  | patches h =>
    exact SoundTopology.congr_iff (.refl _) ((h.flatMap_right _).map _) (h.map _) rfl rfl
  | faces h =>
    obtain ⟨hnames, hassigned⟩ := same_assignedSets (R := List.Perm) (fun _ _ h => h.map _) h
    exact SoundTopology.congr_iff (.refl _) hassigned (.of_eq hnames) rfl rfl
  | turn h =>
    obtain ⟨hnames, hassigned⟩ := same_assignedSets (R := List.Forall₂ Turned)
      (fun _ _ h => .of_eq (map_vertexSet_of_turned h)) h
    exact SoundTopology.congr_iff (.refl _) hassigned (.of_eq hnames) rfl rfl
  | rename hσ => exact (soundTopology_rename_iff hσ spec).symm

/-- **The topology report has no issue exactly for a sound topology**, and no rearrangement of
the specification changes the verdict. -/
theorem validateBlockMeshTopology_decides (spec : TypedBlockMeshFile) :
    ((validateBlockMeshTopology spec).valid ↔ SoundTopology spec) ∧
      ∀ spec', Relation.ReflTransGen Rearranged spec spec' →
        (validateBlockMeshTopology spec').valid = (validateBlockMeshTopology spec).valid := by
  refine ⟨valid_iff_sound spec, fun spec' h => ?_⟩
  induction h with
  | refl => rfl
  | tail _ hstep ih =>
    rw [← ih, Bool.eq_iff_iff, valid_iff_sound, valid_iff_sound]
    exact hstep.sound_iff.symm

/-- Two hexahedra that share a face, with one outer face as a patch. -/
example : (validateBlockMeshTopology
    { blocks := [⟨![0, 1, 2, 3, 4, 5, 6, 7]⟩, ⟨![1, 8, 9, 2, 5, 10, 11, 6]⟩]
      boundary := [⟨"walls".toList, [![0, 4, 7, 3]]⟩] }).valid := by
  decide +kernel

end BlockMesh
end Verification
end OpenFoamAgent
