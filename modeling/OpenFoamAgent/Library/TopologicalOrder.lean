/-
# Stable topological order

Kahn's algorithm over the vertices `0 … count - 1`: of the vertices whose
producers are all placed, the smallest is placed next. When every vertex is
placed, the order is a permutation in which each producer stands before its
consumers (`order_respects`), and the least one in lexicographic order
(`order_least`). Otherwise the graph has a cycle (`order_eq_none_iff`).
-/
import Mathlib.Data.List.Count
import Mathlib.Data.List.Nodup
import Mathlib.Data.List.NodupEquivFin
import Mathlib.Data.List.Perm.Subperm
import Mathlib.Data.List.Range
import Mathlib.Data.Fintype.EquivFin
import Mathlib.Order.WellFounded

namespace OpenFoamAgent
namespace Topological

variable (count : ℕ) (edge : ℕ → ℕ → Bool)

/-- The state of a sort. -/
structure Placement where
  indegree : List ℕ
  ready : List ℕ
  ordered : List ℕ := []

/-- The consumers of a vertex, in ascending order. -/
def outgoing (v : ℕ) : List ℕ := (List.range count).filter (edge v)

/-- The number of producers of a vertex that are not placed. -/
def unplaced (ordered : List ℕ) (v : ℕ) : ℕ :=
  (List.range count).countP fun p => edge p v && decide (p ∉ ordered)

/-- No vertex is placed. -/
def start : Placement :=
  let indegree := (List.range count).map (unplaced count edge [])
  { indegree
    ready := (List.range count).filter fun v => indegree.getD v 0 = 0 }

/-- One producer of a vertex was placed. -/
def release (s : Placement) (child : ℕ) : Placement :=
  let degree := s.indegree.getD child 0 - 1
  { s with
    indegree := s.indegree.set child degree
    ready := if degree = 0 then s.ready ++ [child] else s.ready }

/-- The smallest ready vertex is placed. -/
def place (s : Placement) : Placement :=
  match s.ready.min? with
  | none => s
  | some v =>
    (outgoing count edge v).foldl release
      { s with ready := s.ready.erase v, ordered := s.ordered ++ [v] }

/-- The sort: each vertex is placed at most once. -/
def run : Placement := (place count edge)^[count] (start count edge)

/-- The order, unless the graph has a cycle. -/
def order : Option (List ℕ) :=
  let s := run count edge
  if s.ordered.length = count then some s.ordered else none

/-- Each producer stands before its consumers. -/
def Respects (l : List ℕ) : Prop :=
  ∀ before v after, l = before ++ v :: after → ∀ p < count, edge p v → p ∈ before

/-! ### The invariant -/

/-- What holds of a sort at any time. -/
structure Good (s : Placement) : Prop where
  length : s.indegree.length = count
  /-- The degrees count the producers to come. -/
  degree : ∀ v < count, s.indegree.getD v 0 = unplaced count edge s.ordered v
  inside : ∀ v ∈ s.ready ++ s.ordered, v < count
  nodup : (s.ready ++ s.ordered).Nodup
  /-- A ready vertex waits for nothing, and a vertex that waits for nothing is met. -/
  met : ∀ v < count, v ∈ s.ready ++ s.ordered ↔ unplaced count edge s.ordered v = 0
  respects : Respects count edge s.ordered

variable {count edge} {s : Placement}

theorem unplaced_eq_zero {ordered : List ℕ} {v : ℕ} :
    unplaced count edge ordered v = 0 ↔ ∀ p < count, edge p v → p ∈ ordered := by
  simp [unplaced, List.countP_eq_zero]

/-- Placing a vertex takes one producer from each of its consumers. -/
theorem unplaced_concat {ordered : List ℕ} {v : ℕ} (hv : v < count) (hnot : v ∉ ordered) (c : ℕ) :
    unplaced count edge ordered c =
      unplaced count edge (ordered ++ [v]) c + if edge v c then 1 else 0 := by
  set old := (List.range count).filter fun p => edge p c && decide (p ∉ ordered) with hold
  have hnew : ((List.range count).filter fun p => edge p c && decide (p ∉ ordered ++ [v])) =
      old.erase v := by
    rw [(List.nodup_range.filter _).erase_eq_filter, List.filter_filter]
    refine List.filter_congr fun p _ => ?_
    by_cases hp : p = v <;> simp [hp]
  have hmem : v ∈ old ↔ edge v c := by
    simp [hold, hv, hnot]
  unfold unplaced
  rw [List.countP_eq_length_filter, List.countP_eq_length_filter, hnew, ← hold]
  split_ifs with he
  · have hpos := List.length_pos_of_mem (hmem.2 he)
    rw [List.length_erase_of_mem (hmem.2 he)]
    omega
  · rw [List.erase_of_not_mem (mt hmem.1 he), Nat.add_zero]

/-- What releasing the consumers of a vertex does. -/
theorem foldl_release {children : List ℕ} (hnd : children.Nodup)
    (hin : ∀ c ∈ children, c < s.indegree.length) :
    (children.foldl release s).ordered = s.ordered ∧
      (children.foldl release s).indegree.length = s.indegree.length ∧
      (∀ v, (children.foldl release s).indegree.getD v 0 =
        s.indegree.getD v 0 - if v ∈ children then 1 else 0) ∧
      (children.foldl release s).ready =
        s.ready ++ children.filter fun c => s.indegree.getD c 0 - 1 = 0 := by
  induction children generalizing s with
  | nil => simp
  | cons c children ih =>
    obtain ⟨hc, hnd⟩ := List.nodup_cons.1 hnd
    have hlength : (release s c).indegree.length = s.indegree.length := List.length_set ..
    have hget : ∀ v, (release s c).indegree.getD v 0 =
        if v = c then s.indegree.getD c 0 - 1 else s.indegree.getD v 0 := by
      intro v
      have hset : (release s c).indegree = s.indegree.set c (s.indegree.getD c 0 - 1) := rfl
      rw [hset, List.getD_eq_getElem?_getD, List.getElem?_set]
      by_cases hv : v = c
      · rw [if_pos hv.symm, if_pos (hin c List.mem_cons_self), if_pos hv]
        rfl
      · rw [if_neg fun h => hv h.symm, if_neg hv, List.getD_eq_getElem?_getD]
    obtain ⟨hordered, hlen, hdegree, hready⟩ := ih (s := release s c) hnd fun d hd => by
      rw [hlength]
      exact hin d (List.mem_cons_of_mem _ hd)
    refine ⟨hordered, hlen.trans hlength, fun v => ?_, ?_⟩
    · rw [List.foldl_cons, hdegree, hget]
      by_cases hv : v = c
      · simp [hv, hc]
      · simp [hv]
    · have hfilter : (children.filter fun d => (release s c).indegree.getD d 0 - 1 = 0) =
          children.filter fun d => s.indegree.getD d 0 - 1 = 0 := by
        refine List.filter_congr fun d hd => ?_
        have hne : d ≠ c := fun h => hc (h ▸ hd)
        rw [hget, if_neg hne]
      have hmore : (release s c).ready =
          if s.indegree.getD c 0 - 1 = 0 then s.ready ++ [c] else s.ready := rfl
      rw [List.foldl_cons, hready, hfilter, hmore]
      by_cases hzero : s.indegree.getD c 0 - 1 = 0
      · rw [if_pos hzero, List.filter_cons_of_pos (by simpa using hzero), List.append_assoc]
        rfl
      · rw [if_neg hzero, List.filter_cons_of_neg (by simpa using hzero)]

theorem Respects.concat {l : List ℕ} {v : ℕ} (h : Respects count edge l)
    (hv : ∀ p < count, edge p v → p ∈ l) : Respects count edge (l ++ [v]) := by
  intro before w after heq p hp he
  rcases List.eq_nil_or_concat after with rfl | ⟨after, x, rfl⟩
  · obtain ⟨rfl, hw⟩ := List.append_inj' heq rfl
    rw [List.cons_eq_cons] at hw
    exact hv p hp (hw.1 ▸ he)
  · rw [List.concat_eq_append, ← List.cons_append, ← List.append_assoc] at heq
    obtain ⟨rfl, -⟩ := List.append_inj' heq rfl
    exact h before w after rfl p hp he

theorem good_start : Good count edge (start count edge) := by
  have hdegree : ∀ v < count, (start count edge).indegree.getD v 0 = unplaced count edge [] v := by
    intro v hv
    simp [start, List.getD_eq_getElem?_getD, hv]
  have hready : ∀ v, v ∈ (start count edge).ready ↔ v < count ∧ unplaced count edge [] v = 0 := by
    intro v
    simp only [start, List.mem_filter, List.mem_range, decide_eq_true_eq]
    refine and_congr_right fun hv => ?_
    rw [← hdegree v hv]
    rfl
  refine ⟨by simp [start], hdegree, fun v hv => ?_, ?_, fun v hv => ?_, ?_⟩
  · rw [show (start count edge).ordered = [] from rfl, List.append_nil] at hv
    exact ((hready v).1 hv).1
  · rw [show (start count edge).ordered = [] from rfl, List.append_nil]
    exact List.nodup_range.filter _
  · rw [show (start count edge).ordered = [] from rfl, List.append_nil, hready]
    exact and_iff_right hv
  · intro before v after heq
    simp [start] at heq

/-- Placing a ready vertex keeps the invariant. -/
theorem Good.placed (h : Good count edge s) {v : ℕ} (hv : v ∈ s.ready) :
    Good count edge ((outgoing count edge v).foldl release
      { s with ready := s.ready.erase v, ordered := s.ordered ++ [v] }) := by
  have hvcount : v < count := h.inside v (List.mem_append_left _ hv)
  obtain ⟨hreadyNodup, horderedNodup, hdisjoint⟩ := List.nodup_append.1 h.nodup
  have hnot : v ∉ s.ordered := fun hmem => hdisjoint v hv v hmem rfl
  have hzero : unplaced count edge s.ordered v = 0 :=
    (h.met v hvcount).1 (List.mem_append_left _ hv)
  have hconcat : ∀ c, unplaced count edge s.ordered c =
      unplaced count edge (s.ordered ++ [v]) c + if edge v c then 1 else 0 :=
    unplaced_concat hvcount hnot
  have hkept : ∀ c, unplaced count edge s.ordered c = 0 →
      unplaced count edge (s.ordered ++ [v]) c = 0 := fun c hc => by
    have heq := hconcat c
    omega
  have hout : ∀ c, c ∈ outgoing count edge v ↔ c < count ∧ edge v c := by
    simp [outgoing]
  have hnd : (outgoing count edge v).Nodup := List.nodup_range.filter (edge v)
  obtain ⟨hordered, hlength, hdegree, hready⟩ := foldl_release
    (s := { s with ready := s.ready.erase v, ordered := s.ordered ++ [v] }) hnd fun c hc => by
      rw [h.length]
      exact ((hout c).1 hc).1
  generalize (outgoing count edge v).foldl release
    { s with ready := s.ready.erase v, ordered := s.ordered ++ [v] } = s' at *
  -- the consumers that become ready
  have hnew : ∀ c ∈ (outgoing count edge v).filter (fun c => s.indegree.getD c 0 - 1 = 0),
      c < count ∧ edge v c ∧ unplaced count edge (s.ordered ++ [v]) c = 0 := by
    intro c hc
    obtain ⟨hc, hdeg⟩ := List.mem_filter.1 hc
    obtain ⟨hlt, he⟩ := (hout c).1 hc
    rw [decide_eq_true_eq, h.degree c hlt, hconcat c, if_pos he, Nat.add_sub_cancel] at hdeg
    exact ⟨hlt, he, hdeg⟩
  have hmem : ∀ c, c ∈ s'.ready ↔ (c ∈ s.ready ∧ c ≠ v) ∨
      (c < count ∧ edge v c ∧ unplaced count edge (s.ordered ++ [v]) c = 0) := by
    intro c
    rw [hready, List.mem_append, hreadyNodup.mem_erase_iff, and_comm]
    refine or_congr_right ⟨hnew c, fun ⟨hlt, he, hz⟩ => List.mem_filter.2 ⟨(hout c).2 ⟨hlt, he⟩, ?_⟩⟩
    rw [decide_eq_true_eq, h.degree c hlt, hconcat c, if_pos he, hz]
  refine ⟨hlength.trans h.length, fun c hc => ?_, fun c hc => ?_, ?_, fun c hc => ?_, ?_⟩
  · rw [hordered, hdegree, h.degree c hc, hconcat c]
    by_cases he : edge v c
    · rw [if_pos he, if_pos ((hout c).2 ⟨hc, he⟩), Nat.add_sub_cancel]
    · rw [if_neg he, if_neg fun hmem => he ((hout c).1 hmem).2]
      rfl
  · rw [hordered, List.mem_append, hmem, List.mem_append, List.mem_singleton] at hc
    rcases hc with (⟨hc, -⟩ | ⟨hc, -⟩) | hc | rfl
    · exact h.inside c (List.mem_append_left _ hc)
    · exact hc
    · exact h.inside c (List.mem_append_right _ hc)
    · exact hvcount
  · have hwaits : ∀ c ∈ (outgoing count edge v).filter (fun c => s.indegree.getD c 0 - 1 = 0),
        c ∉ s.ready ++ s.ordered := by
      intro c hc hmet
      obtain ⟨hlt, he, -⟩ := hnew c hc
      have hold := (h.met c hlt).1 hmet
      rw [hconcat c, if_pos he] at hold
      exact Nat.succ_ne_zero _ hold
    rw [hready, hordered]
    refine List.nodup_append.2 ⟨List.nodup_append.2 ⟨hreadyNodup.erase v, hnd.filter _, ?_⟩,
      List.nodup_append.2 ⟨horderedNodup, List.nodup_singleton v, ?_⟩, ?_⟩
    · rintro a ha b hb rfl
      exact hwaits a hb (List.mem_append_left _ (List.mem_of_mem_erase ha))
    · rintro a ha b hb rfl
      exact hnot (List.mem_singleton.1 hb ▸ ha)
    · rintro a ha b hb rfl
      rcases List.mem_append.1 ha with ha | ha
      · rcases List.mem_append.1 hb with hb | hb
        · exact hdisjoint a (List.mem_of_mem_erase ha) a hb rfl
        · exact (hreadyNodup.mem_erase_iff.1 ha).1 (List.mem_singleton.1 hb)
      · rcases List.mem_append.1 hb with hb | hb
        · exact hwaits a ha (List.mem_append_right _ hb)
        · exact hwaits a ha (List.mem_append_left _ (List.mem_singleton.1 hb ▸ hv))
  · rw [hordered, List.mem_append, hmem, List.mem_append, List.mem_singleton]
    constructor
    · rintro ((⟨hc', -⟩ | ⟨-, -, hc'⟩) | hc' | rfl)
      · exact hkept c ((h.met c hc).1 (List.mem_append_left _ hc'))
      · exact hc'
      · exact hkept c ((h.met c hc).1 (List.mem_append_right _ hc'))
      · exact hkept c hzero
    · intro hz
      by_cases he : edge v c
      · exact .inl (.inr ⟨hc, he, hz⟩)
      · have hold : unplaced count edge s.ordered c = 0 := by
          rw [hconcat c, hz, if_neg he]
        rcases List.mem_append.1 ((h.met c hc).2 hold) with hready' | hplaced
        · by_cases hcv : c = v
          · exact .inr (.inr hcv)
          · exact .inl (.inl ⟨hready', hcv⟩)
        · exact .inr (.inl hplaced)
  · rw [hordered]
    exact h.respects.concat (unplaced_eq_zero.1 hzero)

theorem Good.place (h : Good count edge s) : Good count edge (place count edge s) := by
  unfold Topological.place
  split
  · exact h
  · rename_i v hmin
    exact h.placed (List.min?_mem hmin)

theorem good_run : Good count edge (run count edge) := by
  have hall : ∀ n, Good count edge ((place count edge)^[n] (start count edge)) := by
    intro n
    induction n with
    | zero => exact good_start
    | succ n ih =>
      rw [Function.iterate_succ_apply']
      exact ih.place
  exact hall count

/-- **The order of an acyclic graph**: each vertex once, each producer before its consumers. -/
theorem order_respects {l : List ℕ} (h : order count edge = some l) :
    l.Perm (List.range count) ∧ Respects count edge l := by
  have hgood : Good count edge (run count edge) := good_run
  unfold order at h
  dsimp only at h
  split_ifs at h with hlength
  obtain rfl := Option.some.inj h
  obtain ⟨-, hnd, -⟩ := List.nodup_append.1 hgood.nodup
  have hsub : (run count edge).ordered.Subperm (List.range count) :=
    List.subperm_of_subset hnd fun v hv =>
      List.mem_range.2 (hgood.inside v (List.mem_append_right _ hv))
  exact ⟨hsub.perm_of_length_le (by rw [List.length_range, hlength]), hgood.respects⟩

/-! ### The least order -/

/-- Each vertex is the smallest of those whose producers all stand before it. -/
def Greedy (count : ℕ) (edge : ℕ → ℕ → Bool) (l : List ℕ) : Prop :=
  ∀ before v after, l = before ++ v :: after → ∀ u < count, u ∉ before →
    (∀ p < count, edge p u → p ∈ before) → v ≤ u

theorem Greedy.concat {l : List ℕ} {v : ℕ} (h : Greedy count edge l)
    (hv : ∀ u < count, u ∉ l → (∀ p < count, edge p u → p ∈ l) → v ≤ u) :
    Greedy count edge (l ++ [v]) := by
  intro before w after heq u hu hnot hmet
  rcases List.eq_nil_or_concat after with rfl | ⟨after, x, rfl⟩
  · obtain ⟨rfl, hw⟩ := List.append_inj' heq rfl
    rw [List.cons_eq_cons] at hw
    exact hw.1 ▸ hv u hu hnot hmet
  · rw [List.concat_eq_append, ← List.cons_append, ← List.append_assoc] at heq
    obtain ⟨rfl, -⟩ := List.append_inj' heq rfl
    exact h before w after rfl u hu hnot hmet

theorem greedy_place (h : Good count edge s) (hgreedy : Greedy count edge s.ordered) :
    Greedy count edge (place count edge s).ordered := by
  unfold place
  split
  · exact hgreedy
  · rename_i v hmin
    have hmem : v ∈ s.ready := List.min?_mem hmin
    have hordered := (foldl_release
      (s := { s with ready := s.ready.erase v, ordered := s.ordered ++ [v] })
      (List.nodup_range.filter (edge v)) fun c hc => by
        rw [h.length]
        exact List.mem_range.1 (List.mem_filter.1 hc).1).1
    rw [show ((outgoing count edge v).foldl release _).ordered = s.ordered ++ [v] from hordered]
    refine hgreedy.concat fun u hu hnot hmet => ?_
    -- a vertex that waits for nothing and is not placed is ready
    have hready := (h.met u hu).2 (unplaced_eq_zero.2 hmet)
    rcases List.mem_append.1 hready with hready | hplaced
    · exact (List.min?_eq_some_iff.1 hmin).2 u hready
    · exact absurd hplaced hnot

theorem greedy_run : Greedy count edge (run count edge).ordered := by
  have hall : ∀ n, Good count edge ((place count edge)^[n] (start count edge)) ∧
      Greedy count edge ((place count edge)^[n] (start count edge)).ordered := by
    intro n
    induction n with
    | zero => exact ⟨good_start, fun before v after heq => by simp [start] at heq⟩
    | succ n ih =>
      rw [Function.iterate_succ_apply']
      exact ⟨ih.1.place, greedy_place ih.1 ih.2⟩
  exact (hall count).2

/-- A greedy order is the least of the orders with the same beginning. -/
theorem Greedy.le {before l l' : List ℕ} (h : Greedy count edge (before ++ l))
    (hinside : ∀ v ∈ l', v < count) (hnd : (before ++ l').Nodup)
    (hrespects : Respects count edge (before ++ l')) (hlength : l.length = l'.length) :
    l = l' ∨ List.Lex (· < ·) l l' := by
  induction l generalizing before l' with
  | nil => exact .inl (List.eq_nil_of_length_eq_zero hlength.symm).symm
  | cons v l ih =>
    rcases l' with _ | ⟨u, l'⟩
    · cases hlength
    have hnot : u ∉ before := fun hmem =>
      (List.nodup_append.1 hnd).2.2 u hmem u List.mem_cons_self rfl
    have hle : v ≤ u := h before v l rfl u (hinside u List.mem_cons_self) hnot
      (hrespects before u l' rfl)
    rcases hle.lt_or_eq with hlt | rfl
    · exact .inr (.rel hlt)
    · rw [List.append_cons] at h hnd hrespects
      rcases ih h (fun w hw => hinside w (List.mem_cons_of_mem _ hw)) hnd hrespects
        (Nat.succ.inj hlength) with heq | hlt
      · exact .inl (congrArg (v :: ·) heq)
      · exact .inr (.cons hlt)

/-- **The order is the least** of all that respect the producers. -/
theorem order_least {l l' : List ℕ} (h : order count edge = some l)
    (hperm : l'.Perm (List.range count)) (hrespects : Respects count edge l') :
    l = l' ∨ List.Lex (· < ·) l l' := by
  have hlength := (order_respects h).1.length_eq
  have hgreedy : Greedy count edge ([] ++ (run count edge).ordered) := greedy_run
  unfold order at h
  dsimp only at h
  split_ifs at h
  obtain rfl := Option.some.inj h
  exact Greedy.le hgreedy (fun v hv => List.mem_range.1 (hperm.mem_iff.1 hv))
    (hperm.nodup_iff.2 List.nodup_range) hrespects (hlength.trans hperm.length_eq.symm)

/-! ### Cycles -/

/-- An edge between two vertices of the graph. -/
def Edge (count : ℕ) (edge : ℕ → ℕ → Bool) (p v : ℕ) : Prop := p < count ∧ v < count ∧ edge p v

/-- Some vertex is reached from itself. -/
def Cyclic (count : ℕ) (edge : ℕ → ℕ → Bool) : Prop :=
  ∃ v, Relation.TransGen (Edge count edge) v v

/-- An order that respects the producers goes up along the edges. -/
theorem not_cyclic_of_respects {l : List ℕ} (hperm : l.Perm (List.range count))
    (h : Respects count edge l) : ¬ Cyclic count edge := by
  have hstep : ∀ p v, Edge count edge p v → l.idxOf p < l.idxOf v := by
    rintro p v ⟨hp, hv, he⟩
    have hmem : v ∈ l := hperm.mem_iff.2 (List.mem_range.2 hv)
    have hlt := List.idxOf_lt_length_of_mem hmem
    have hsplit : l = l.take (l.idxOf v) ++ v :: l.drop (l.idxOf v + 1) := by
      conv_lhs => rw [← List.take_append_drop (l.idxOf v) l, List.drop_eq_getElem_cons hlt,
        List.getElem_idxOf hlt]
    have hbefore := h _ _ _ hsplit p hp he
    have hfront : l.idxOf p = (l.take (l.idxOf v)).idxOf p := by
      conv_lhs => rw [hsplit, List.idxOf_append_of_mem hbefore]
    rw [hfront]
    exact (List.idxOf_lt_length_of_mem hbefore).trans_le (List.length_take_le _ _)
  rintro ⟨v, hv⟩
  have hpath : ∀ u, Relation.TransGen (Edge count edge) v u → l.idxOf v < l.idxOf u := by
    intro u hu
    induction hu with
    | single he => exact hstep _ _ he
    | tail _ he ih => exact ih.trans (hstep _ _ he)
  exact lt_irrefl _ (hpath v hv)

/-- A sort places a vertex at each step, until none is ready. -/
theorem length_run : (run count edge).ordered.length = count ∨ (run count edge).ready = [] := by
  have hall : ∀ n, Good count edge ((place count edge)^[n] (start count edge)) ∧
      (((place count edge)^[n] (start count edge)).ordered.length = n ∨
        ((place count edge)^[n] (start count edge)).ready = []) := by
    intro n
    induction n with
    | zero => exact ⟨good_start, .inl rfl⟩
    | succ n ih =>
      rw [Function.iterate_succ_apply']
      obtain ⟨hgood, hlength⟩ := ih
      refine ⟨hgood.place, ?_⟩
      generalize (place count edge)^[n] (start count edge) = s at hgood hlength ⊢
      unfold place
      split
      · rename_i hmin
        exact .inr (List.min?_eq_none_iff.1 hmin)
      · rename_i v hmin
        have hordered := (foldl_release
          (s := { s with ready := s.ready.erase v, ordered := s.ordered ++ [v] })
          (List.nodup_range.filter (edge v)) fun c hc => by
            rw [hgood.length]
            exact List.mem_range.1 (List.mem_filter.1 hc).1).1
        rw [show ((outgoing count edge v).foldl release _).ordered = s.ordered ++ [v] from hordered,
          List.length_append, List.length_singleton]
        rcases hlength with hlength | hnil
        · exact .inl (by rw [hlength])
        · have hmem := List.min?_mem hmin
          rw [hnil] at hmem
          cases hmem
  exact (hall count).2

/-- Where every vertex of a part has a producer in the part, there is a cycle. -/
theorem cyclic_of_supplied (part : ℕ → Prop) {v : ℕ} (hv : part v)
    (hinside : ∀ v, part v → v < count) (h : ∀ v, part v → ∃ p, part p ∧ edge p v) :
    Cyclic count edge := by
  by_contra hacyclic
  let r : Fin count → Fin count → Prop := fun a b => Relation.TransGen (Edge count edge) a b
  have : IsTrans (Fin count) r := ⟨fun _ _ _ => Relation.TransGen.trans⟩
  have : Std.Irrefl r := ⟨fun a ha => hacyclic ⟨a, ha⟩⟩
  have hwf : WellFounded r := Finite.wellFounded_of_trans_of_irrefl r
  obtain ⟨u, hu, hmin⟩ := hwf.has_min {u : Fin count | part u} ⟨⟨v, hinside v hv⟩, hv⟩
  obtain ⟨p, hp, he⟩ := h u hu
  exact hmin ⟨p, hinside p hp⟩ hp (.single ⟨hinside p hp, u.2, he⟩)

/-- **A sort fails on the cyclic graphs.** -/
theorem order_eq_none_iff : order count edge = none ↔ Cyclic count edge := by
  constructor
  · intro h
    have hgood : Good count edge (run count edge) := good_run
    have hlength : (run count edge).ordered.length = count ∨ (run count edge).ready = [] := length_run
    unfold order at h
    dsimp only at h
    split_ifs at h with hall
    have hready := hlength.resolve_left hall
    have hnd := (List.nodup_append.1 hgood.nodup).2.1
    -- some vertex is not placed
    obtain ⟨v, hv, hnot⟩ : ∃ v < count, v ∉ (run count edge).ordered := by
      by_contra hplaced
      push Not at hplaced
      have hsub : (List.range count).Subperm (run count edge).ordered :=
        List.subperm_of_subset List.nodup_range fun v hv => hplaced v (List.mem_range.1 hv)
      have hsub' : (run count edge).ordered.Subperm (List.range count) :=
        List.subperm_of_subset hnd fun v hv =>
          List.mem_range.2 (hgood.inside v (List.mem_append_right _ hv))
      refine hall (le_antisymm ?_ ?_)
      · simpa using hsub'.length_le
      · simpa using hsub.length_le
    refine cyclic_of_supplied (fun v => v < count ∧ v ∉ (run count edge).ordered) ⟨hv, hnot⟩
      (fun v hv => hv.1) ?_
    rintro v ⟨hv, hnot⟩
    have hwaits : ¬ unplaced count edge (run count edge).ordered v = 0 := fun hzero => by
      have hmet := (hgood.met v hv).2 hzero
      rw [hready, List.nil_append] at hmet
      exact hnot hmet
    rw [unplaced_eq_zero] at hwaits
    push Not at hwaits
    obtain ⟨p, hp, he, hpnot⟩ := hwaits
    exact ⟨p, ⟨hp, hpnot⟩, he⟩
  · intro hcyclic
    cases horder : order count edge with
    | none => rfl
    | some l =>
      obtain ⟨hperm, hrespects⟩ := order_respects horder
      exact absurd hcyclic (not_cyclic_of_respects hperm hrespects)

/-! ### Items in order -/

section Items

variable {α : Type} {items : List α} {l : List ℕ}

theorem filterMap_getElem?_range (items : List α) :
    (List.range items.length).filterMap (fun i => items[i]?) = items := by
  induction items using List.reverseRecOn with
  | nil => rfl
  | append_singleton items a ih =>
    have hfront : (List.range items.length).filterMap (fun i => (items ++ [a])[i]?) = items := by
      refine Eq.trans (List.filterMap_congr fun i hi => ?_) ih
      rw [List.getElem?_append_left (List.mem_range.1 hi)]
    rw [List.length_append, List.length_singleton, List.range_succ, List.filterMap_append, hfront]
    simp

/-- **Items in the order of an acyclic graph**: the items of the vertices are a permutation, and
none produces for an earlier one. -/
theorem pairwise_of_respects (hperm : l.Perm (List.range items.length))
    (h : Respects items.length edge l) {R : α → α → Prop}
    (hR : ∀ p v a b, items[p]? = some a → items[v]? = some b → p ≠ v → R a b → edge p v) :
    (l.filterMap fun i => items[i]?).Perm items ∧
      (l.filterMap fun i => items[i]?).Pairwise fun earlier later => ¬ R later earlier := by
  have hnd : l.Nodup := hperm.nodup_iff.2 List.nodup_range
  constructor
  · have hitems := hperm.filterMap fun i => items[i]?
    rwa [filterMap_getElem?_range] at hitems
  · rw [List.pairwise_filterMap]
    refine List.pairwise_iff_getElem.2 fun i j hi hj hij a ha b hb hab => ?_
    have hne : l[j] ≠ l[i] := fun heq => by
      have hsame := (List.Nodup.getElem_inj_iff hnd).1 heq
      omega
    have hedge := hR _ _ b a hb ha hne hab
    have hlt : l[j] < items.length := List.mem_range.1 (hperm.mem_iff.1 (List.getElem_mem hj))
    have hsplit : l = l.take i ++ l[i] :: l.drop (i + 1) := by
      rw [List.getElem_cons_drop, List.take_append_drop]
    have hmem := h _ _ _ hsplit _ hlt hedge
    obtain ⟨k, hk, hkj⟩ := List.mem_take_iff_getElem.1 hmem
    have hsame := (List.Nodup.getElem_inj_iff hnd).1 hkj
    omega

end Items

/-- A diamond, and a cycle. -/
example :
    order 4 (fun p c => (p, c) ∈ [(3, 1), (3, 0), (1, 2), (0, 2)]) = some [3, 0, 1, 2] ∧
    order 3 (fun p c => (p, c) ∈ [(0, 1), (1, 2), (2, 1)]) = none := by
  decide +kernel

end Topological
end OpenFoamAgent
