/-
# The cells of an accepted mesh are closed

What `read_mesh` counts over the faces of a cell says that every edge of the cell is there
once in each direction (`paired_of_closedCell`): the uses of an edge are two and cancel, and
a face that is seen from its neighbour is the same face with its edges turned around
(`useEdge_directed`). So the area vector of a cell is zero in exact arithmetic whatever the
shape of its faces, and its volume is the same from every origin (`readMesh_sound`).

The arithmetic that the checks are made with does not matter for this: the coordinates may
be rounded numbers, and `value` says which numbers they stand for.
-/
import Mathlib.Algebra.BigOperators.Ring.List
import OpenFoamAgent.Library.ClosedSurface
import OpenFoamAgent.Library.Traversal
import OpenFoamAgent.Postprocessing.NativeFields

namespace OpenFoamAgent
namespace Postprocessing

open Python ClosedSurface

/-! ### Uses of edges -/

/-- The direction in which a cell uses an edge of a face. -/
def directed (sign : ℤ) (e : ℕ × ℕ) : ℕ × ℕ := if sign = 1 then e else e.swap

/-- The contribution of an edge to the second count. -/
def direction (e : ℕ × ℕ) : ℤ := if e.1 < e.2 then 1 else -1

theorem edgeKey_swap (e : ℕ × ℕ) : edgeKey e.swap = edgeKey e := by
  rw [edgeKey, edgeKey, Prod.fst_swap, Prod.snd_swap, min_comm, max_comm]

theorem eq_or_swap_of_edgeKey {e e' : ℕ × ℕ} (h : edgeKey e' = edgeKey e) : e' = e ∨ e' = e.swap := by
  obtain ⟨hmin, hmax⟩ := Prod.mk.inj h
  have : (e'.1 = e.1 ∧ e'.2 = e.2) ∨ (e'.1 = e.2 ∧ e'.2 = e.1) := by omega
  exact this.imp (fun h => Prod.ext h.1 h.2) fun h => Prod.ext h.1 h.2

theorem direction_swap {e : ℕ × ℕ} (he : e.1 ≠ e.2) : direction e.swap = -direction e := by
  rw [direction, direction, Prod.fst_swap, Prod.snd_swap]
  split_ifs <;> omega

/-- A face is used by its neighbour as its owner would use it turned around. -/
theorem useEdge_directed {sign : ℤ} (hsign : sign = 1 ∨ sign = -1) {e : ℕ × ℕ} (he : e.1 ≠ e.2)
    (edges : EdgeUses) : useEdge sign edges e = useEdge 1 edges (directed sign e) := by
  rcases hsign with rfl | rfl
  · rfl
  · have hdirected : directed (-1) e = e.swap := rfl
    have hcontribution : (if e.1 < e.2 then (-1 : ℤ) else - -1) =
        if e.2 < e.1 then 1 else -1 := by split_ifs <;> omega
    rw [hdirected, useEdge, useEdge, edgeKey_swap, Prod.fst_swap, Prod.snd_swap, hcontribution]

/-- The counts of an edge after a list of uses. -/
theorem get_useEdges (D : List (ℕ × ℕ)) (k : ℕ × ℕ) :
    (D.foldl (useEdge 1) ∅).get k =
      if k ∈ D.map edgeKey then
        some ((D.filter (edgeKey · = k)).length, ((D.filter (edgeKey · = k)).map direction).sum)
      else none := by
  induction D using List.reverseRecOn with
  | nil => rfl
  | append_singleton D e ih =>
    rw [List.foldl_append, List.foldl_cons, List.foldl_nil, useEdge, Dict.get_insert,
      List.map_append, List.filter_append]
    by_cases hk : k = edgeKey e
    · subst hk
      have hin : edgeKey e ∈ D.map edgeKey ++ [e].map edgeKey :=
        List.mem_append_right _ (List.mem_singleton_self _)
      rw [if_pos rfl, if_pos hin, ih, List.filter_cons_of_pos (by simp), List.filter_nil,
        List.length_append, List.map_append, List.sum_append]
      by_cases hmem : edgeKey e ∈ D.map edgeKey
      · rw [if_pos hmem]
        simp [direction]
      · have hnone : D.filter (edgeKey · = edgeKey e) = [] := List.filter_eq_nil_iff.2 fun d hd => by
          rw [decide_eq_true_iff]
          exact fun heq => hmem (heq ▸ List.mem_map_of_mem hd)
        rw [if_neg hmem, hnone]
        simp [direction]
    · have hin : k ∈ D.map edgeKey ++ [e].map edgeKey ↔ k ∈ D.map edgeKey := by
        rw [List.mem_append, List.map_singleton, List.mem_singleton]
        exact or_iff_left hk
      rw [if_neg hk, ih, List.filter_cons_of_neg (by simpa using Ne.symm hk), List.filter_nil,
        List.append_nil]
      exact (if_congr hin rfl rfl).symm

/-- The uses of an edge, in both directions. -/
theorem counts_of_uses {e : ℕ × ℕ} (he : e.1 ≠ e.2) {L : List (ℕ × ℕ)}
    (h : ∀ d ∈ L, d = e ∨ d = e.swap) :
    L.length = L.count e + L.count e.swap ∧
      (L.map direction).sum = direction e * (L.count e - L.count e.swap) := by
  have hne : e.swap ≠ e := fun heq => he (congrArg Prod.snd heq)
  induction L with
  | nil => simp
  | cons d L ih =>
    obtain ⟨hlength, hsum⟩ := ih fun d hd => h d (List.mem_cons_of_mem _ hd)
    rcases h d List.mem_cons_self with rfl | rfl
    · rw [List.length_cons, List.map_cons, List.sum_cons, List.count_cons_self,
        List.count_cons_of_ne (Ne.symm hne), hsum]
      refine ⟨by omega, ?_⟩
      push_cast
      ring
    · rw [List.length_cons, List.map_cons, List.sum_cons, List.count_cons_self,
        List.count_cons_of_ne hne, hsum, direction_swap he]
      refine ⟨by omega, ?_⟩
      push_cast
      ring

/-- **Two uses that cancel are one in each direction.** -/
theorem paired_of_uses {D : List (ℕ × ℕ)} (hne : ∀ e ∈ D, e.1 ≠ e.2)
    (h : ∀ edge ∈ (D.foldl (useEdge 1) (∅ : EdgeUses)).items, edge.2.1 = 2 ∧ edge.2.2 = 0) :
    Paired D := by
  intro e he
  have hget := get_useEdges D (edgeKey e)
  rw [if_pos (List.mem_map_of_mem he)] at hget
  obtain ⟨htwo, hzero⟩ := h _ (Dict.mem_items.2 hget)
  have huses : ∀ d ∈ D.filter (edgeKey · = edgeKey e), d = e ∨ d = e.swap := fun d hd =>
    eq_or_swap_of_edgeKey (by simpa using (List.mem_filter.1 hd).2)
  obtain ⟨hlength, hsum⟩ := counts_of_uses (hne e he) huses
  rw [List.count_filter (by simp), List.count_filter (by simp [edgeKey_swap])] at hlength hsum
  dsimp only at htwo hzero
  rw [hlength] at htwo
  rw [hsum] at hzero
  have hdirection : direction e ≠ 0 := by
    rw [direction]
    split_ifs <;> decide
  have hequal := (mul_eq_zero.1 hzero).resolve_left hdirection
  omega

/-! ### The faces of a cell -/

/-- The faces of a cell, with their signs. -/
def cellFaces (rows : List FaceRow) (cell : ℕ) : List (List ℕ × ℤ) :=
  rows.flatMap fun row => (row.targets.filter (·.1 = cell)).map fun target => (row.face, target.2)

/-- The edges of a cell, as they run around its faces seen from outside. -/
def cellEdges (rows : List FaceRow) (cell : ℕ) : List (ℕ × ℕ) :=
  (cellFaces rows cell).flatMap fun f => (edgesAround f.1).map (directed f.2)

theorem sign_of_mem_cellFaces {rows : List FaceRow} {cell : ℕ} {f : List ℕ × ℤ}
    (h : f ∈ cellFaces rows cell) : (∃ row ∈ rows, f.1 = row.face) ∧ (f.2 = 1 ∨ f.2 = -1) := by
  obtain ⟨row, hrow, h⟩ := List.mem_flatMap.1 h
  obtain ⟨target, htarget, rfl⟩ := List.mem_map.1 h
  refine ⟨⟨row, hrow, rfl⟩, ?_⟩
  rcases List.mem_cons.1 (List.mem_filter.1 htarget).1 with rfl | hmem
  · exact .inl rfl
  · obtain ⟨_, -, rfl⟩ := List.mem_map.1 hmem
    exact .inr rfl

section
variable {R : Type} (A : Arithmetic R)

/-- The corners of a face. -/
def corners (points : List (Vec R)) (face : List ℕ) : List (Vec R) :=
  face.map fun i => points.getD i (zeroVec A)

/-- What is summed up over some faces of a cell. -/
def sumFaces (points : List (Vec R)) (origin : Vec R) (c : CellSums R)
    (fs : List (List ℕ × ℤ)) : CellSums R :=
  fs.foldl (fun c f =>
    let sums := faceSums A origin (corners A points f.1)
    c.addFace A f.1 sums.1 sums.2 (norm A sums.1) f.2) c

/-- The volume of a cell from an origin: the cones over its faces. -/
def cellVolume (points : List (Vec R)) (rows : List FaceRow) (origin : Vec R) (cell : ℕ) : R :=
  (cellFaces rows cell).foldl (fun volume f =>
    A.add volume (A.mul (A.ofRat f.2) (faceSums A origin (corners A points f.1)).2)) (A.ofRat 0)

/-- A face that was not refused. -/
structure SoundFace (points : List (Vec R)) (row : FaceRow) : Prop where
  corners : 3 ≤ row.face.length
  simple : row.face.Nodup
  oriented : ∀ n ∈ row.neighbour, row.owner < n

theorem sumFaces_volume (points : List (Vec R)) (origin : Vec R) (fs : List (List ℕ × ℤ))
    (c : CellSums R) : (sumFaces A points origin c fs).volume =
      fs.foldl (fun volume f =>
        A.add volume (A.mul (A.ofRat f.2) (faceSums A origin (corners A points f.1)).2)) c.volume := by
  induction fs generalizing c with
  | nil => rfl
  | cons f fs ih => exact ih _

theorem sumFaces_edges (points : List (Vec R)) (origin : Vec R) {fs : List (List ℕ × ℤ)}
    (hfs : ∀ f ∈ fs, (2 ≤ f.1.length ∧ f.1.Nodup) ∧ (f.2 = 1 ∨ f.2 = -1)) (c : CellSums R) :
    (sumFaces A points origin c fs).edges =
      (fs.flatMap fun f => (edgesAround f.1).map (directed f.2)).foldl (useEdge 1) c.edges := by
  induction fs generalizing c with
  | nil => rfl
  | cons f fs ih =>
    obtain ⟨⟨hlength, hnodup⟩, hsign⟩ := hfs f List.mem_cons_self
    have hface : ∀ edges : EdgeUses, (faceEdges f.1).foldl (useEdge f.2) edges =
        ((edgesAround f.1).map (directed f.2)).foldl (useEdge 1) edges := by
      intro edges
      rw [List.foldl_map]
      refine List.foldl_ext _ _ _ fun edges e he => ?_
      exact useEdge_directed hsign (ne_of_mem_edgesAround hnodup hlength he) edges
    rw [List.flatMap_cons, List.foldl_append, ← hface]
    exact ih (fun g hg => hfs g (List.mem_cons_of_mem f hg)) _

theorem getElem?_addTargets {α : Type} (add : ℤ → α → α) (targets : List (ℕ × ℤ)) (cells : List α)
    (cell : ℕ) :
    (targets.foldl (fun cells target => cells.modify target.1 (add target.2)) cells)[cell]? =
      cells[cell]?.map fun c =>
        (targets.filter (·.1 = cell)).foldl (fun c target => add target.2 c) c := by
  induction targets generalizing cells with
  | nil => simp
  | cons target targets ih =>
    rw [List.foldl_cons, ih, List.getElem?_modify]
    by_cases h : target.1 = cell
    · rw [List.filter_cons_of_pos (by simpa using h)]
      simp [h, Function.comp_def]
    · rw [List.filter_cons_of_neg (by simpa using h)]
      simp [h]

/-- One turn of the loop over the faces. -/
theorem addFaceRow_eq_ok {points : List (Vec R)} {origin : Vec R}
    {s s' : List R × List (CellSums R)} {row : FaceRow}
    (h : addFaceRow A points origin s row = .ok s') :
    SoundFace points row ∧ ∀ cell, s'.2[cell]? =
      s.2[cell]?.map fun c => sumFaces A points origin c (cellFaces [row] cell) := by
  rw [addFaceRow] at h
  by_cases hshape : (row.face.length < 3 || !decide row.face.Nodup ||
      row.face.any (points.length ≤ ·)) = true
  · rw [if_pos hshape] at h
    cases h
  rw [if_neg hshape] at h
  simp only [Bool.or_eq_true, not_or, decide_eq_true_eq, not_lt, Bool.not_eq_true',
    decide_eq_false_iff_not, not_not] at hshape
  dsimp only at h
  cases hface : checkFace A (row.face.map fun i => points.getD i (zeroVec A))
      (faceSums A origin (row.face.map fun i => points.getD i (zeroVec A))).1 with
  | error e =>
    rw [hface] at h
    cases h
  | ok mag =>
    rw [hface] at h
    dsimp only at h
    by_cases horiented : row.neighbour.any (· ≤ row.owner) = true
    · rw [if_pos horiented] at h
      cases h
    rw [if_neg horiented] at h
    obtain rfl := Except.ok.inj h
    have hmag : mag = norm A (faceSums A origin (corners A points row.face)).1 := by
      unfold checkFace at hface
      dsimp only at hface
      split_ifs at hface
      exact (Except.ok.inj hface).symm
    refine ⟨⟨hshape.1.1, hshape.1.2, fun n hn => ?_⟩, fun cell => ?_⟩
    · rw [Option.mem_def] at hn
      simpa [hn] using horiented
    · rw [hmag]
      refine (getElem?_addTargets _ row.targets s.2 cell).trans ?_
      simp only [cellFaces, List.flatMap_cons, List.flatMap_nil, List.append_nil, sumFaces,
        List.foldl_map, corners]

theorem cellFaces_append (rows rows' : List FaceRow) (cell : ℕ) :
    cellFaces (rows ++ rows') cell = cellFaces rows cell ++ cellFaces rows' cell :=
  List.flatMap_append

/-- **The loops over the faces and the cells.** -/
theorem checkCells_eq_ok {points : List (Vec R)} {cells : ℕ} {rows : List FaceRow}
    {areas : List R} {sums : List (CellSums R)}
    (h : checkCells A points cells rows = .ok (areas, sums)) :
    (∀ row ∈ rows, SoundFace points row) ∧
      sums = (List.range cells).map (fun cell =>
        sumFaces A points (centroid A points) (emptyCell A) (cellFaces rows cell)) ∧
      ∀ c ∈ sums, closedCell A c := by
  rw [checkCells] at h
  obtain ⟨s, hloop, h⟩ := Traversal.bind_eq_ok.1 h
  have hbase : ∀ cell : ℕ, (List.replicate cells (emptyCell A))[cell]? =
      ((List.range cells)[cell]?).map fun cell =>
        sumFaces A points (centroid A points) (emptyCell A) (cellFaces [] cell) := by
    intro cell
    rw [← List.getElem?_map]
    refine congrArg (·[cell]?) (List.ext_getElem (by simp) fun i hi hi' => ?_)
    simp [cellFaces, sumFaces]
  have hinv := Traversal.foldlM_induct
    (P := fun done s => (∀ row ∈ done, SoundFace points row) ∧ ∀ cell, s.2[cell]? =
      ((List.range cells)[cell]?).map fun cell =>
        sumFaces A points (centroid A points) (emptyCell A) (cellFaces done cell)) hloop
    ⟨fun row hrow => absurd hrow List.not_mem_nil, hbase⟩
    fun done row _ s s' hs hstep => by
      obtain ⟨hsound, hcells⟩ := addFaceRow_eq_ok A hstep
      refine ⟨fun r hr => ?_, fun cell => ?_⟩
      · rcases List.mem_append.1 hr with hr | hr
        · exact hs.1 r hr
        · rwa [List.mem_singleton.1 hr]
      · rw [hcells, hs.2, Option.map_map]
        rcases Nat.lt_or_ge cell cells with hlt | hge
        · rw [List.getElem?_range hlt, Option.map_some, Option.map_some, Function.comp_apply,
            cellFaces_append, sumFaces, sumFaces, sumFaces, ← List.foldl_append]
        · rw [List.getElem?_eq_none (by simpa using hge)]
          rfl
  by_cases hclosed : s.2.all (closedCell A) = true
  · rw [hclosed] at h
    obtain rfl : s = (areas, sums) := Except.ok.inj h
    refine ⟨hinv.1, List.ext_getElem? fun cell => ?_, List.all_eq_true.1 hclosed⟩
    rw [hinv.2, List.getElem?_map]
  · rw [Bool.not_eq_true] at hclosed
    rw [hclosed] at h
    cases h

end

/-! ### Area vectors over edges -/

section
variable {K : Type} [Field K]

/-- What an edge of a mesh adds to an area vector. -/
def edgeArea (points : List (Vec K)) (e : ℕ × ℕ) : Vec K :=
  vectorProduct (points.getD e.1 0) (points.getD e.2 0)

theorem edgeArea_swap (points : List (Vec K)) (e : ℕ × ℕ) :
    edgeArea points e.swap = -edgeArea points e :=
  vectorProduct_swap _ _

theorem edgeArea_directed (points : List (Vec K)) {sign : ℤ} (hsign : sign = 1 ∨ sign = -1)
    (a : Vec K) (e : ℕ × ℕ) : ((sign : ℚ) : K) * scalarProduct a (edgeArea points e) =
      scalarProduct a (edgeArea points (directed sign e)) := by
  rcases hsign with rfl | rfl
  · simp [directed]
  · have hdirected : directed (-1) e = e.swap := rfl
    rw [hdirected, edgeArea_swap]
    simp [scalarProduct]
    ring

/-- The part of a cell's volume that a change of the origin changes. -/
theorem signed_edgeArea_sum (points : List (Vec K)) (a : Vec K) {fs : List (List ℕ × ℤ)}
    (hfs : ∀ f ∈ fs, f.2 = 1 ∨ f.2 = -1) :
    (fs.map fun f => ((f.2 : ℚ) : K) *
        scalarProduct a ((edgesAround f.1).map (edgeArea points)).sum).sum =
      scalarProduct a (((fs.flatMap fun f => (edgesAround f.1).map (directed f.2)).map
        (edgeArea points)).sum) := by
  have hsum : ∀ {sign : ℤ}, sign = 1 ∨ sign = -1 → ∀ edges : List (ℕ × ℕ),
      ((sign : ℚ) : K) * scalarProduct a (edges.map (edgeArea points)).sum =
        scalarProduct a (((edges.map (directed sign)).map (edgeArea points)).sum) := by
    intro sign hsign edges
    induction edges with
    | nil => simp [scalarProduct_zero]
    | cons e edges ih =>
      rw [List.map_cons, List.sum_cons, scalarProduct_add, mul_add, ih,
        edgeArea_directed points hsign]
      simp only [List.map_cons, List.sum_cons, scalarProduct_add]
  induction fs with
  | nil => simp [scalarProduct_zero]
  | cons f fs ih =>
    rw [List.map_cons, List.sum_cons, ih fun g hg => hfs g (List.mem_cons_of_mem f hg),
      hsum (hfs f List.mem_cons_self), List.flatMap_cons, List.map_append, List.sum_append,
      scalarProduct_add]

end

/-! ### Exact arithmetic -/

section
variable {K : Type} [Field K] [LinearOrder K] [IsStrictOrderedRing K]
variable (number : Text → Option K) (sqrt : K → K)

/-- The arithmetic of an ordered field, without rounding. -/
def exactArithmetic : Arithmetic K where
  number := number
  ofRat x := x
  add := (· + ·)
  sub := (· - ·)
  mul := (· * ·)
  div := (· / ·)
  sum := List.sum
  sqrt := sqrt
  abs x := |x|
  lt x y := decide (x < y)
  le x y := decide (x ≤ y)
  finite _ := true

theorem addTriangle_volume (o p₀ : Vec K) (edges : List (Vec K × Vec K)) (s : Vec K × K) :
    (edges.foldl (addTriangle (exactArithmetic number sqrt) o p₀) s).2 =
      s.2 + scalarProduct (p₀ - o)
        (edges.map fun e => vectorProduct (e.1 - p₀) (e.2 - p₀)).sum / 6 := by
  induction edges generalizing s with
  | nil => simp [scalarProduct_zero]
  | cons e edges ih =>
    have hstep : (addTriangle (exactArithmetic number sqrt) o p₀ s e).2 =
        s.2 + scalarProduct (p₀ - o) (vectorProduct (e.1 - p₀) (e.2 - p₀)) / 6 := by
      simp [addTriangle, exactArithmetic, dot, subVec, cross, scalarProduct, vectorProduct]
      ring
    rw [List.foldl_cons, ih, hstep, List.map_cons, List.sum_cons, scalarProduct_add]
    ring

/-- Another origin changes the cone over a face by its area vector. -/
theorem faceSums_origin (o o' : Vec K) (p : List (Vec K)) :
    (faceSums (exactArithmetic number sqrt) o p).2 =
      (faceSums (exactArithmetic number sqrt) o' p).2 +
        scalarProduct (o' - o) ((edgesAround p).map fun e => vectorProduct e.1 e.2).sum / 6 := by
  cases p with
  | nil => simp [faceSums, edgesAround, scalarProduct_zero]
  | cons p₀ p =>
    rw [faceSums, faceSums, addTriangle_volume, addTriangle_volume, ← fan_eq, fan,
      scalarProduct_sub, scalarProduct_sub, scalarProduct_sub]
    ring

omit [IsStrictOrderedRing K] in
theorem cellVolume_eq_sum (points : List (Vec K)) (rows : List FaceRow) (o : Vec K) (cell : ℕ) :
    cellVolume (exactArithmetic number sqrt) points rows o cell =
      ((cellFaces rows cell).map fun f => ((f.2 : ℚ) : K) *
        (faceSums (exactArithmetic number sqrt) o
          (corners (exactArithmetic number sqrt) points f.1)).2).sum := by
  have hfold : ∀ (fs : List (List ℕ × ℤ)) (g : List ℕ × ℤ → K) (start : K),
      fs.foldl (fun volume f => volume + g f) start = start + (fs.map g).sum := by
    intro fs g
    induction fs with
    | nil => simp
    | cons f fs ih =>
      intro start
      rw [List.foldl_cons, ih, List.map_cons, List.sum_cons, add_assoc]
  have hzero : (exactArithmetic number sqrt).ofRat 0 = 0 := Rat.cast_zero
  exact (hfold _ _ _).trans (by rw [hzero, zero_add]; rfl)

/-- **The volume of a closed cell is the same from every origin.** -/
theorem cellVolume_origin {rows : List FaceRow} {cell : ℕ} (h : Paired (cellEdges rows cell))
    (points : List (Vec K)) (o o' : Vec K) :
    cellVolume (exactArithmetic number sqrt) points rows o cell =
      cellVolume (exactArithmetic number sqrt) points rows o' cell := by
  have hcorners : ∀ face : List ℕ, ((edgesAround
      (corners (exactArithmetic number sqrt) points face)).map fun e => vectorProduct e.1 e.2) =
        (edgesAround face).map (edgeArea points) := by
    intro face
    have hzero : zeroVec (exactArithmetic number sqrt) = (0 : Vec K) := by
      simp [zeroVec, exactArithmetic, Prod.ext_iff]
    rw [corners, hzero, edgesAround_map, List.map_map]
    rfl
  have hface : ∀ f : List ℕ × ℤ, ((f.2 : ℚ) : K) * (faceSums (exactArithmetic number sqrt) o
        (corners (exactArithmetic number sqrt) points f.1)).2 =
      ((f.2 : ℚ) : K) * (faceSums (exactArithmetic number sqrt) o'
        (corners (exactArithmetic number sqrt) points f.1)).2 +
      ((f.2 : ℚ) : K) * scalarProduct (o' - o) ((edgesAround f.1).map (edgeArea points)).sum * 6⁻¹ := by
    intro f
    rw [faceSums_origin number sqrt o o', hcorners]
    ring
  have hclosed : ((cellEdges rows cell).map (edgeArea points)).sum = 0 :=
    h.sum_eq_zero (fun x hx => self_eq_neg.1 hx) (edgeArea_swap points)
  have hsign : ∀ f ∈ cellFaces rows cell, f.2 = 1 ∨ f.2 = -1 :=
    fun f hf => (sign_of_mem_cellFaces hf).2
  have hchange := signed_edgeArea_sum points (o' - o) hsign
  rw [← cellEdges, hclosed, scalarProduct_zero] at hchange
  rw [cellVolume_eq_sum, cellVolume_eq_sum, List.map_congr_left fun f _ => hface f,
    List.sum_map_add, List.sum_map_mul_right, hchange, zero_mul, add_zero]

end

/-! ### Meshes -/

section
variable {R : Type} (A : Arithmetic R)

/-- The edges of a cell that was not refused. -/
theorem paired_of_closedCell {points : List (Vec R)} (origin : Vec R) {rows : List FaceRow}
    (hrows : ∀ row ∈ rows, SoundFace points row) {cell : ℕ}
    (h : closedCell A (sumFaces A points origin (emptyCell A) (cellFaces rows cell))) :
    Paired (cellEdges rows cell) := by
  have hfaces : ∀ f ∈ cellFaces rows cell,
      (2 ≤ f.1.length ∧ f.1.Nodup) ∧ (f.2 = 1 ∨ f.2 = -1) := by
    intro f hf
    obtain ⟨⟨row, hrow, hface⟩, hsign⟩ := sign_of_mem_cellFaces hf
    obtain ⟨hcorners, hsimple, -⟩ := hrows row hrow
    rw [hface]
    exact ⟨⟨by omega, hsimple⟩, hsign⟩
  refine paired_of_uses (fun e he => ?_) fun edge hedge => ?_
  · obtain ⟨f, hf, he⟩ := List.mem_flatMap.1 he
    obtain ⟨e', he', rfl⟩ := List.mem_map.1 he
    obtain ⟨⟨hlength, hsimple⟩, -⟩ := hfaces f hf
    have hne := ne_of_mem_edgesAround hsimple hlength he'
    rw [directed]
    split_ifs
    · exact hne
    · exact hne.symm
  · simp only [closedCell, Bool.and_eq_true, List.all_eq_true] at h
    rw [sumFaces_edges A points origin hfaces] at h
    simpa using h.2 edge hedge

/-- What holds of a mesh that `read_mesh` accepts. -/
structure SoundMesh (mesh : Mesh R) : Prop where
  patched : ∀ i, mesh.neighbour.length ≤ i → i < mesh.faces.length →
    ∃! patch, patch ∈ mesh.patches ∧ i ∈ List.range' patch.2.start patch.2.count
  oriented : ∀ i o n : ℕ, mesh.owner[i]? = some o → mesh.neighbour[i]? = some n → o < n
  cells : ∀ cell, cell ∈ mesh.owner ++ mesh.neighbour ↔ cell < mesh.volumes.length
  closed : ∀ cell < mesh.volumes.length,
    Paired (cellEdges (faceRows mesh.faces mesh.owner mesh.neighbour) cell)
  volumes : ∀ cell < mesh.volumes.length, mesh.volumes[cell]? = some (cellVolume A mesh.points
    (faceRows mesh.faces mesh.owner mesh.neighbour) (centroid A mesh.points) cell)
  independent : ∀ (K : Type) [Field K] [LinearOrder K] [IsStrictOrderedRing K]
    (number : Text → Option K) (sqrt : K → K) (value : R → K) (o o' : Vec K),
    ∀ cell < mesh.volumes.length,
      cellVolume (exactArithmetic number sqrt) (mesh.points.map (mapVec value))
          (faceRows mesh.faces mesh.owner mesh.neighbour) o cell =
        cellVolume (exactArithmetic number sqrt) (mesh.points.map (mapVec value))
          (faceRows mesh.faces mesh.owner mesh.neighbour) o' cell

/-- The checks that an accepted mesh has passed. -/
theorem readMesh_eq_ok {raw : Text → Option Text} {timeLocal : Bool} {region : Text}
    {allowProcessor : Bool} {mesh : Mesh R}
    (h : readMesh A raw timeLocal region allowProcessor = .ok mesh) :
    mesh.owner.length = mesh.faces.length ∧ mesh.neighbour.length ≤ mesh.faces.length ∧
      (∀ cell < cellCount mesh.owner mesh.neighbour, cell ∈ mesh.owner ++ mesh.neighbour) ∧
      (covered mesh.patches).Perm
        (List.range' mesh.neighbour.length (mesh.faces.length - mesh.neighbour.length)) ∧
      ∃ areas sums, checkCells A mesh.points (cellCount mesh.owner mesh.neighbour)
        (faceRows mesh.faces mesh.owner mesh.neighbour) = .ok (areas, sums) ∧
        mesh.volumes = sums.map (·.volume) := by
  rw [readMesh] at h
  obtain ⟨-, h⟩ := Traversal.guard_eq_ok.1 h
  obtain ⟨-, h⟩ := Traversal.guard_eq_ok.1 h
  obtain ⟨_, -, h⟩ := Traversal.bind_eq_ok.1 h
  obtain ⟨points, -, h⟩ := Traversal.bind_eq_ok.1 h
  obtain ⟨_, -, h⟩ := Traversal.bind_eq_ok.1 h
  obtain ⟨faces, -, h⟩ := Traversal.bind_eq_ok.1 h
  obtain ⟨_, -, h⟩ := Traversal.bind_eq_ok.1 h
  obtain ⟨owner, -, h⟩ := Traversal.bind_eq_ok.1 h
  obtain ⟨_, -, h⟩ := Traversal.bind_eq_ok.1 h
  obtain ⟨neighbour, -, h⟩ := Traversal.bind_eq_ok.1 h
  obtain ⟨haddressing, h⟩ := Traversal.guard_eq_ok.1 h
  obtain ⟨hcells, h⟩ := Traversal.guard_eq_ok.1 h
  obtain ⟨_, -, h⟩ := Traversal.bind_eq_ok.1 h
  obtain ⟨patches, -, h⟩ := Traversal.bind_eq_ok.1 h
  obtain ⟨hcoverage, h⟩ := Traversal.guard_eq_ok.1 h
  obtain ⟨checked, hchecked, h⟩ := Traversal.bind_eq_ok.1 h
  obtain rfl := Except.ok.inj h
  simp only [not_or, not_lt, ne_eq, not_not] at haddressing hcells hcoverage
  refine ⟨haddressing.2.2.1, haddressing.2.2.2, fun cell hcell => ?_, ?_,
    checked.1, checked.2, hchecked, rfl⟩
  · have hall := hcells.2
    simp only [Bool.not_eq_true', Bool.not_eq_false, List.all_eq_true, List.mem_range,
      Bool.or_eq_true, List.contains_iff_mem] at hall
    exact List.mem_append.2 (hall cell hcell)
  · rw [← hcoverage.2]
    exact (List.perm_insertionSort _ _).symm

theorem lt_cellCount {owner neighbour : List ℕ} {cell : ℕ} (h : cell ∈ owner ++ neighbour) :
    cell < cellCount owner neighbour := by
  rw [cellCount, Nat.lt_succ_iff, List.foldl_max_eq_max (List.ne_nil_of_mem h)]
  exact (List.le_max_of_mem h).trans (le_max_right _ _)

theorem getElem?_faceRows {faces : List (List ℕ)} {owner neighbour : List ℕ} {i o n : ℕ}
    (hlength : owner.length = faces.length) (ho : owner[i]? = some o) (hn : neighbour[i]? = some n) :
    ∃ row ∈ faceRows faces owner neighbour, row.owner = o ∧ row.neighbour = some n := by
  obtain ⟨hi, ho⟩ := List.getElem?_eq_some_iff.1 ho
  refine ⟨_, List.mem_map_of_mem (List.mem_iff_getElem.2 ⟨i, by simpa [hlength] using hi, rfl⟩), ?_⟩
  simp [hi, ho, hn]

/-- A face in the range of the boundary is in one patch. -/
theorem existsUnique_patch {patches : List (Text × MeshPatch)} {start count i : ℕ}
    (h : (covered patches).Perm (List.range' start count)) (hi : i ∈ List.range' start count) :
    ∃! patch, patch ∈ patches ∧ i ∈ List.range' patch.2.start patch.2.count := by
  have hnodup : (covered patches).Nodup := h.nodup_iff.2 List.nodup_range'
  obtain ⟨patch, hpatch, hin⟩ := List.mem_flatMap.1 (h.mem_iff.2 hi)
  refine ⟨patch, ⟨hpatch, hin⟩, fun other hother => ?_⟩
  by_contra hne
  have hsymm : Std.Symm (Function.onFun List.Disjoint fun patch : Text × MeshPatch =>
      List.range' patch.2.start patch.2.count) := ⟨fun _ _ hdisjoint => hdisjoint.symm⟩
  exact (List.nodup_flatMap.1 hnodup).2.forall hother.1 hpatch hne hother.2 hin

end

/-! ### Two bricks -/

/-- The lengths in a brick whose edges, face diagonals and faces are whole numbers. -/
def brickSqrt (x : ℚ) : ℚ :=
  ([0, 44, 117, 240, 125, 244, 267, 44 * 117, 117 * 240, 44 * 240].find? fun r => r * r = x).getD 1

def brickNumber (token : Text) : Option ℚ :=
  if token.all isAsciiDigit then some (digitsValue token) else none

/-- The lists of two bricks side by side. -/
def brickLists : List (String × String) :=
  [("points", "12((0 0 0)(44 0 0)(88 0 0)(0 117 0)(44 117 0)(88 117 0)" ++
      "(0 0 240)(44 0 240)(88 0 240)(0 117 240)(44 117 240)(88 117 240))"),
    ("faces", "11(4(1 4 10 7)4(0 6 9 3)4(2 5 11 8)4(0 1 7 6)4(3 9 10 4)4(0 3 4 1)" ++
      "4(6 7 10 9)4(1 2 8 7)4(4 10 11 5)4(1 4 5 2)4(7 8 11 10))"),
    ("owner", "11(0 0 1 0 0 0 0 1 1 1 1)"),
    ("neighbour", "1(1)"),
    ("boundary", "2(ends\x7btype patch;nFaces 2;startFace 1;\x7d" ++
      "walls\x7btype wall;nFaces 8;startFace 3;\x7d)")]

/-- The files of two bricks. -/
def bricks (relative : Text) : Option Text :=
  (brickLists.find? fun item => "constant/polyMesh/".toList ++ item.1.toList = relative).map
    fun item =>
      ("FoamFile\x7bformat ascii;object " ++ item.1 ++ ";\x7d" ++ item.2).toList

theorem readMesh_bricks :
    (readMesh (exactArithmetic brickNumber brickSqrt) bricks false [] false).isOk := by
  decide +kernel

end Postprocessing
end OpenFoamAgent
