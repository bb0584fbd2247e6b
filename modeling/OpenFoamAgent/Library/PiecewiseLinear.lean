/-
# Piecewise linear functions

A function of time given by its nodes, pairs of a time and a value at rising times, with
straight lines in between (`valueAt`). What is summed over the segments of such a function
does not change when a node is put on one of its lines, provided that a line which is cut
in two counts as much as its parts (`Additive`); the area below a line and the area below
its square are such sums.

So a sum depends on the function alone and not on its nodes (`Refines.overSegments`), and
the sum of a window is that of its two parts (`overSegments_windowOf`). The mean of a
difference is the difference of the means, and the mean square is never below the square
of the mean, with equality for constants only.
-/
import Mathlib.Algebra.Order.Field.Basic
import Mathlib.Data.List.Induction
import Mathlib.Data.List.Perm.Basic
import Mathlib.Data.List.Sort
import Mathlib.Tactic.FieldSimp
import Mathlib.Tactic.Linarith
import Mathlib.Tactic.Positivity
import Mathlib.Tactic.Ring

namespace OpenFoamAgent
namespace PiecewiseLinear

variable {K : Type} [Field K] [LinearOrder K]

/-- The line through two nodes. -/
def line (p q : K × K) (t : K) : K := p.2 + (q.2 - p.2) * (t - p.1) / (q.1 - p.1)

/-- The times of the nodes rise. -/
def Rising (s : List (K × K)) : Prop := s.Pairwise (·.1 < ·.1)

/-- The value at a time between the first and the last node. -/
def valueAt : List (K × K) → K → Option K
  | [], _ => none
  | [p], t => if t = p.1 then some p.2 else none
  | p :: q :: s, t =>
    if t < p.1 then none
    else if t = p.1 then some p.2
    else if t < q.1 then some (line p q t)
    else valueAt (q :: s) t

/-- A sum over the segments between neighbouring nodes. -/
def overSegments (f : K × K → K × K → K) : List (K × K) → K
  | p :: q :: s => f p q + overSegments f (q :: s)
  | _ => 0

/-- A line that is cut in two counts as much as its parts. -/
def Additive (f : K × K → K × K → K) : Prop :=
  ∀ p q t, p.1 < t → t < q.1 → f p q = f p (t, line p q t) + f (t, line p q t) q

/-- One node more, unless there is one at its time. -/
def insertNode (x : K × K) : List (K × K) → List (K × K)
  | [] => [x]
  | p :: s =>
    if x.1 < p.1 then x :: p :: s else if x.1 = p.1 then p :: s else p :: insertNode x s

/-! ### Values -/

theorem valueAt_of_lt {p : K × K} {t : K} (h : t < p.1) (s : List (K × K)) :
    valueAt (p :: s) t = none := by
  cases s with
  | nil => exact if_neg h.ne
  | cons q s => exact if_pos h

theorem valueAt_head (p : K × K) (s : List (K × K)) : valueAt (p :: s) p.1 = some p.2 := by
  cases s with
  | nil => exact if_pos rfl
  | cons q s => rw [valueAt, if_neg (lt_irrefl _), if_pos rfl]

/-- Behind a node the nodes before it do not matter. -/
theorem valueAt_cons {p q : K × K} {t : K} (hpq : p.1 < q.1) (ht : q.1 ≤ t) (s : List (K × K)) :
    valueAt (p :: q :: s) t = valueAt (q :: s) t := by
  have hpt : p.1 < t := hpq.trans_le ht
  rw [valueAt, if_neg hpt.not_gt, if_neg hpt.ne', if_neg ht.not_gt]

theorem valueAt_between {p q : K × K} {t : K} (hp : p.1 < t) (hq : t < q.1) (s : List (K × K)) :
    valueAt (p :: q :: s) t = some (line p q t) := by
  rw [valueAt, if_neg hp.not_gt, if_neg hp.ne', if_pos hq]

theorem valueAt_append_right {l s : List (K × K)} {p : K × K} {t : K}
    (h : Rising (l ++ p :: s)) (ht : p.1 ≤ t) : valueAt (l ++ p :: s) t = valueAt (p :: s) t := by
  induction l with
  | nil => rfl
  | cons a l ih =>
    have hrest := (List.pairwise_cons.1 h).2
    have hhead := (List.pairwise_cons.1 h).1
    cases l with
    | nil => exact valueAt_cons (hhead p List.mem_cons_self) ht s
    | cons b l =>
      have hb : b.1 < p.1 := (List.pairwise_cons.1 hrest).1 p (by simp)
      rw [← ih hrest]
      exact valueAt_cons (hhead b List.mem_cons_self) (hb.le.trans ht) _

theorem valueAt_append_left {l s : List (K × K)} {p : K × K} {t : K}
    (h : Rising (l ++ p :: s)) (ht : t ≤ p.1) :
    valueAt (l ++ p :: s) t = valueAt (l ++ [p]) t := by
  have hlast : ∀ s, valueAt (p :: s) t = valueAt [p] t := by
    intro s
    rcases ht.lt_or_eq with hlt | rfl
    · rw [valueAt_of_lt hlt, valueAt_of_lt hlt]
    · rw [valueAt_head, valueAt_head]
  induction l with
  | nil => exact hlast s
  | cons a l ih =>
    have hrest := (List.pairwise_cons.1 h).2
    cases l with
    | nil =>
      simp only [List.cons_append, List.nil_append, valueAt]
      rw [hlast s]
      rfl
    | cons b l =>
      have := ih hrest
      simp only [List.cons_append] at this ⊢
      rw [valueAt, this, valueAt]

theorem valueAt_of_mem {s : List (K × K)} {p : K × K} (h : Rising s) (hp : p ∈ s) :
    valueAt s p.1 = some p.2 := by
  obtain ⟨l, r, rfl⟩ := List.append_of_mem hp
  rw [valueAt_append_right h le_rfl, valueAt_head]

/-- A value exists from the first node to the last. -/
theorem exists_valueAt {p : K × K} {s : List (K × K)} {t : K} (hp : p.1 ≤ t)
    (hlast : t ≤ ((p :: s).getLast (List.cons_ne_nil p s)).1) (h : Rising (p :: s)) :
    ∃ y, valueAt (p :: s) t = some y := by
  induction s generalizing p with
  | nil => exact ⟨p.2, if_pos (le_antisymm hlast hp)⟩
  | cons q s ih =>
    rcases hp.eq_or_lt with rfl | hpt
    · exact ⟨p.2, valueAt_head _ _⟩
    rcases lt_or_ge t q.1 with hq | hq
    · exact ⟨_, valueAt_between hpt hq s⟩
    · rw [valueAt_cons ((List.pairwise_cons.1 h).1 q List.mem_cons_self) hq]
      exact ih hq (by rwa [List.getLast_cons (List.cons_ne_nil q s)] at hlast)
        (List.pairwise_cons.1 h).2

/-- Between nodes of one value there is no other value. -/
theorem valueAt_of_constant {s : List (K × K)} {y t : K} (h : Rising s) (hall : ∀ x ∈ s, x.2 = y)
    (hfirst : ∃ p ∈ s.head?, p.1 ≤ t) (hlast : ∃ q ∈ s.getLast?, t ≤ q.1) :
    valueAt s t = some y := by
  induction s with
  | nil =>
    obtain ⟨p, hp, -⟩ := hfirst
    cases hp
  | cons p s ih =>
    obtain ⟨p', hp', hpt⟩ := hfirst
    obtain rfl := Option.some.inj hp'
    rcases hpt.eq_or_lt with rfl | hpt
    · rw [valueAt_head, hall p List.mem_cons_self]
    · cases s with
      | nil =>
        obtain ⟨q, hq, htq⟩ := hlast
        obtain rfl := Option.some.inj hq
        exact absurd hpt htq.not_gt
      | cons q s =>
        obtain ⟨hp, hs⟩ := List.pairwise_cons.1 h
        rcases lt_or_ge t q.1 with hq | hq
        · rw [valueAt_between hpt hq, line, hall p List.mem_cons_self,
            hall q (List.mem_cons_of_mem p List.mem_cons_self), sub_self, zero_mul, zero_div, add_zero]
        · rw [valueAt_cons (hp q List.mem_cons_self) hq]
          exact ih hs (fun x hx => hall x (List.mem_cons_of_mem p hx)) ⟨q, rfl, hq⟩
            (by rwa [List.getLast?_cons_cons] at hlast)

/-! ### Nodes on the lines -/

theorem eq_of_valueAt {s : List (K × K)} {x p : K × K} (h : Rising s)
    (hx : valueAt s x.1 = some x.2) (hp : p ∈ s) (heq : x.1 = p.1) : x = p := by
  refine Prod.ext heq (Option.some.inj ?_)
  rw [← hx, heq, valueAt_of_mem h hp]

theorem mem_insertNode {s : List (K × K)} {x y : K × K} (h : Rising s)
    (hx : valueAt s x.1 = some x.2) : y ∈ insertNode x s ↔ y = x ∨ y ∈ s := by
  induction s with
  | nil => cases hx
  | cons p s ih =>
    rw [insertNode]
    split_ifs with hlt heq
    · rw [List.mem_cons]
    · rw [eq_of_valueAt h hx List.mem_cons_self heq, List.mem_cons]
      tauto
    · have hp : p.1 < x.1 := (not_lt.1 hlt).lt_of_ne (Ne.symm heq)
      cases s with
      | nil =>
        rw [valueAt, if_neg heq] at hx
        cases hx
      | cons q s =>
        rcases lt_or_ge x.1 q.1 with hq | hq
        · rw [insertNode, if_pos hq]
          simp only [List.mem_cons]
          tauto
        · have hrest := (List.pairwise_cons.1 h)
          rw [valueAt_cons (hrest.1 q List.mem_cons_self) hq] at hx
          rw [List.mem_cons, ih hrest.2 hx, List.mem_cons (a := y) (b := p)]
          tauto

omit [Field K] in
theorem subset_insertNode {s : List (K × K)} {x y : K × K} (h : y ∈ insertNode x s) :
    y = x ∨ y ∈ s := by
  induction s with
  | nil => exact .inl (List.mem_singleton.1 h)
  | cons p s ih =>
    rw [insertNode] at h
    split_ifs at h
    · exact List.mem_cons.1 h
    · exact .inr h
    · rcases List.mem_cons.1 h with rfl | h
      · exact .inr List.mem_cons_self
      · exact (ih h).imp_right (List.mem_cons_of_mem p)

omit [Field K] in
theorem rising_insertNode {s : List (K × K)} (x : K × K) (h : Rising s) :
    Rising (insertNode x s) := by
  induction s with
  | nil => exact List.pairwise_singleton _ _
  | cons p s ih =>
    obtain ⟨hp, hs⟩ := List.pairwise_cons.1 h
    rw [insertNode]
    split_ifs with hlt heq
    · refine List.Pairwise.cons (fun y hy => ?_) h
      rcases List.mem_cons.1 hy with rfl | hy
      · exact hlt
      · exact hlt.trans (hp y hy)
    · exact h
    · refine (ih hs).cons fun y hy => ?_
      rcases subset_insertNode hy with rfl | hy
      · exact (not_lt.1 hlt).lt_of_ne (Ne.symm heq)
      · exact hp y hy

omit [Field K] in
/-- Rising nodes are known by their members. -/
theorem eq_of_mem_iff {s s' : List (K × K)} (h : Rising s) (h' : Rising s')
    (hmem : ∀ x, x ∈ s ↔ x ∈ s') : s = s' := by
  have hnodup : ∀ {l : List (K × K)}, Rising l → l.Nodup := fun hl =>
    hl.imp fun hlt heq => hlt.ne (congrArg Prod.fst heq)
  have hperm : s.Perm s' := (List.perm_ext_iff_of_nodup (hnodup h) (hnodup h')).2 hmem
  exact hperm.eq_of_pairwise (fun a b _ _ hab hba => absurd hba hab.not_gt) h h'

variable [IsStrictOrderedRing K]

/-- The first part of a line lies on the line. -/
theorem line_line_left {p q : K × K} {u : K} (hpu : p.1 < u) (huq : u < q.1) (t : K) :
    line p (u, line p q u) t = line p q t := by
  have h₁ : u - p.1 ≠ 0 := (sub_pos.2 hpu).ne'
  have h₂ : q.1 - p.1 ≠ 0 := (sub_pos.2 (hpu.trans huq)).ne'
  simp only [line]
  field_simp
  ring

/-- The second part of a line lies on the line. -/
theorem line_line_right {p q : K × K} {u : K} (hpu : p.1 < u) (huq : u < q.1) (t : K) :
    line (u, line p q u) q t = line p q t := by
  have h₁ : q.1 - u ≠ 0 := (sub_pos.2 huq).ne'
  have h₂ : q.1 - p.1 ≠ 0 := (sub_pos.2 (hpu.trans huq)).ne'
  simp only [line]
  field_simp
  ring

/-- A node that lies on a segment, and the nodes around it. -/
theorem valueAt_cut {p q : K × K} {u : K} (hpu : p.1 < u) (huq : u < q.1) (s : List (K × K))
    (t : K) : valueAt (p :: (u, line p q u) :: q :: s) t = valueAt (p :: q :: s) t := by
  rcases lt_trichotomy t u with ht | rfl | ht
  · rcases lt_trichotomy t p.1 with hp | rfl | hp
    · rw [valueAt_of_lt hp, valueAt_of_lt hp]
    · rw [valueAt_head, valueAt_head]
    · rw [valueAt_between hp ht, valueAt_between hp (ht.trans huq), line_line_left hpu huq]
  · rw [valueAt_cons hpu le_rfl, valueAt_head, valueAt_between hpu huq]
  · rw [valueAt_cons hpu ht.le]
    rcases lt_or_ge t q.1 with hq | hq
    · rw [valueAt_between ht hq, valueAt_between (hpu.trans ht) hq, line_line_right hpu huq]
    · rw [valueAt_cons huq hq, valueAt_cons (hpu.trans huq) hq]

/-- What a node on the lines leaves as it is. -/
structure Refined (s s' : List (K × K)) : Prop where
  valueAt_eq : ∀ t, valueAt s' t = valueAt s t
  overSegments_eq : ∀ f, Additive f → overSegments f s' = overSegments f s

omit [IsStrictOrderedRing K] in
theorem Refined.refl (s : List (K × K)) : Refined s s := ⟨fun _ => rfl, fun _ _ => rfl⟩

omit [IsStrictOrderedRing K] in
theorem Refined.trans {s s' s'' : List (K × K)} (h : Refined s s') (h' : Refined s' s'') :
    Refined s s'' :=
  ⟨fun t => (h'.valueAt_eq t).trans (h.valueAt_eq t), fun f hf =>
    (h'.overSegments_eq f hf).trans (h.overSegments_eq f hf)⟩

omit [IsStrictOrderedRing K] in
theorem Refined.cons {p q q' : K × K} {s s' : List (K × K)} (h : Refined (q :: s) (q' :: s'))
    (hq : q = q') : Refined (p :: q :: s) (p :: q' :: s') := by
  subst hq
  refine ⟨fun t => ?_, fun f hf => ?_⟩
  · rw [valueAt, valueAt, h.valueAt_eq]
  · rw [overSegments, overSegments, h.overSegments_eq f hf]

theorem refined_insertNode {s : List (K × K)} {x : K × K} (h : Rising s)
    (hx : valueAt s x.1 = some x.2) : Refined s (insertNode x s) := by
  induction s with
  | nil => cases hx
  | cons p s ih =>
    rw [insertNode]
    split_ifs with hlt heq
    · rw [valueAt_of_lt hlt] at hx
      cases hx
    · exact .refl _
    · have hp : p.1 < x.1 := (not_lt.1 hlt).lt_of_ne (Ne.symm heq)
      cases s with
      | nil =>
        rw [valueAt, if_neg heq] at hx
        cases hx
      | cons q s =>
        have hrest := List.pairwise_cons.1 h
        rcases lt_or_ge x.1 q.1 with hq | hq
        · rw [valueAt_between hp hq] at hx
          have hline : x = (x.1, line p q x.1) := Prod.ext rfl (Option.some.inj hx).symm
          rw [insertNode, if_pos hq, hline]
          exact ⟨valueAt_cut hp hq s, fun f hf => by
            rw [overSegments, overSegments, overSegments, hf p q x.1 hp hq, add_assoc]⟩
        · rw [valueAt_cons (hrest.1 q List.mem_cons_self) hq] at hx
          have hnext := ih hrest.2 hx
          rw [insertNode] at hnext ⊢
          split_ifs at hnext ⊢ with hlt' heq'
          · exact absurd hlt' hq.not_gt
          · exact hnext.cons rfl
          · exact hnext.cons rfl

/-- Nodes that hold those of a function, and lie on its lines. -/
structure Refines (s s' : List (K × K)) : Prop where
  rising : Rising s'
  subset : s ⊆ s'
  on : ∀ x ∈ s', valueAt s x.1 = some x.2

/-- What one node on the lines preserves, more nodes on them preserve. -/
theorem Refines.induction {s s' : List (K × K)} (hs : Rising s) (h : Refines s s')
    {motive : List (K × K) → Prop} (base : motive s)
    (insert : ∀ t x, Rising t → valueAt t x.1 = some x.2 → motive t → motive (insertNode x t)) :
    motive s' := by
  have hall : ∀ xs : List (K × K), (∀ x ∈ xs, x ∈ s') →
      Rising (xs.foldr insertNode s) ∧ Refined s (xs.foldr insertNode s) ∧
        (∀ y, y ∈ xs.foldr insertNode s ↔ y ∈ xs ∨ y ∈ s) ∧ motive (xs.foldr insertNode s) := by
    intro xs hmem
    induction xs with
    | nil => exact ⟨hs, .refl s, fun y => by simp, base⟩
    | cons x xs ih =>
      obtain ⟨hrising, hrefined, hiff, hmotive⟩ := ih fun y hy => hmem y (List.mem_cons_of_mem x hy)
      have hx : valueAt (xs.foldr insertNode s) x.1 = some x.2 := by
        rw [hrefined.valueAt_eq]
        exact h.on x (hmem x List.mem_cons_self)
      refine ⟨rising_insertNode x hrising, hrefined.trans (refined_insertNode hrising hx),
        fun y => ?_, insert _ x hrising hx hmotive⟩
      rw [List.foldr_cons, mem_insertNode hrising hx, hiff, List.mem_cons, or_assoc]
  obtain ⟨hrising, -, hiff, hmotive⟩ := hall s' fun _ hx => hx
  have heq : s'.foldr insertNode s = s' := eq_of_mem_iff hrising h.rising fun y => by
    rw [hiff]
    exact or_iff_left_of_imp fun hy => h.subset hy
  rwa [heq] at hmotive

/-- More nodes on the lines: the function and its sums stay. -/
theorem Refines.refined {s s' : List (K × K)} (hs : Rising s) (h : Refines s s') :
    Refined s s' :=
  h.induction hs (.refl s) fun _ _ hrising hx href => href.trans (refined_insertNode hrising hx)

/-! ### Windows -/

/-- The nodes strictly between two times. -/
def between (s : List (K × K)) (a b : K) : List (K × K) := s.filter fun x => a < x.1 ∧ x.1 < b

/-- The nodes of a function from one of its points to another one. -/
def windowOf (s : List (K × K)) (x y : K × K) : List (K × K) := x :: (between s x.1 y.1 ++ [y])

omit [Field K] [IsStrictOrderedRing K] in
theorem mem_between {s : List (K × K)} {a b : K} {x : K × K} :
    x ∈ between s a b ↔ x ∈ s ∧ a < x.1 ∧ x.1 < b := by
  rw [between, List.mem_filter, decide_eq_true_iff]

omit [Field K] [IsStrictOrderedRing K] in
theorem mem_windowOf {s : List (K × K)} {x y z : K × K} :
    z ∈ windowOf s x y ↔ z = x ∨ (z ∈ s ∧ x.1 < z.1 ∧ z.1 < y.1) ∨ z = y := by
  rw [windowOf, List.mem_cons, List.mem_append, mem_between, List.mem_singleton]

omit [Field K] [IsStrictOrderedRing K] in
theorem rising_between {s : List (K × K)} (h : Rising s) (a b : K) : Rising (between s a b) :=
  List.Pairwise.filter _ h

omit [Field K] [IsStrictOrderedRing K] in
theorem range_of_mem_windowOf {s : List (K × K)} {x y z : K × K} (hxy : x.1 < y.1)
    (hz : z ∈ windowOf s x y) : x.1 ≤ z.1 ∧ z.1 ≤ y.1 := by
  rcases mem_windowOf.1 hz with rfl | ⟨-, hxz, hzy⟩ | rfl
  · exact ⟨le_rfl, hxy.le⟩
  · exact ⟨hxz.le, hzy.le⟩
  · exact ⟨hxy.le, le_rfl⟩

omit [Field K] [IsStrictOrderedRing K] in
theorem getLast?_windowOf (s : List (K × K)) (x y : K × K) :
    (windowOf s x y).getLast? = some y := by
  rw [windowOf, ← List.cons_append, List.getLast?_concat]

omit [Field K] [IsStrictOrderedRing K] in
theorem rising_windowOf {s : List (K × K)} {x y : K × K} (h : Rising s) (hxy : x.1 < y.1) :
    Rising (windowOf s x y) := by
  refine List.Pairwise.cons (fun z hz => ?_) (List.pairwise_append.2
    ⟨rising_between h _ _, List.pairwise_singleton _ _, fun z hz w hw => ?_⟩)
  · rcases List.mem_append.1 hz with hz | hz
    · exact (mem_between.1 hz).2.1
    · rwa [List.mem_singleton.1 hz]
  · rw [List.mem_singleton.1 hw]
    exact (mem_between.1 hz).2.2

omit [IsStrictOrderedRing K] in
/-- A function that has nodes at both ends of a window. -/
theorem insertNode_eq_windowOf {s : List (K × K)} {x y : K × K} (h : Rising s)
    (hx : valueAt s x.1 = some x.2) (hy : valueAt s y.1 = some y.2) (hxy : x.1 < y.1)
    (hx' : valueAt (insertNode y s) x.1 = some x.2) :
    insertNode x (insertNode y s) =
      s.filter (·.1 < x.1) ++ (windowOf s x y ++ s.filter (y.1 < ·.1)) := by
  have hwindow : ∀ z ∈ windowOf s x y, x.1 ≤ z.1 ∧ z.1 ≤ y.1 := fun z hz =>
    range_of_mem_windowOf hxy hz
  have hbelow : ∀ z ∈ s.filter (·.1 < x.1), z.1 < x.1 := fun z hz => by
    simpa using (List.mem_filter.1 hz).2
  have habove : ∀ z ∈ s.filter (y.1 < ·.1), y.1 < z.1 := fun z hz => by
    simpa using (List.mem_filter.1 hz).2
  refine eq_of_mem_iff (rising_insertNode x (rising_insertNode y h)) ?_ fun z => ?_
  · refine List.pairwise_append.2 ⟨List.Pairwise.filter _ h, List.pairwise_append.2
      ⟨rising_windowOf h hxy, List.Pairwise.filter _ h, fun z hz w hw => ?_⟩, fun z hz w hw => ?_⟩
    · exact (hwindow z hz).2.trans_lt (habove w hw)
    · rcases List.mem_append.1 hw with hw | hw
      · exact (hbelow z hz).trans_le (hwindow w hw).1
      · exact (hbelow z hz).trans (hxy.trans (habove w hw))
  · rw [mem_insertNode (rising_insertNode y h) hx', mem_insertNode h hy, List.mem_append,
      List.mem_append, mem_windowOf, List.mem_filter, List.mem_filter, decide_eq_true_iff,
      decide_eq_true_iff]
    constructor
    · rintro (rfl | rfl | hz)
      · exact .inr (.inl (.inl rfl))
      · exact .inr (.inl (.inr (.inr rfl)))
      · rcases lt_trichotomy x.1 z.1 with hxz | hxz | hxz
        · rcases lt_trichotomy z.1 y.1 with hzy | hzy | hzy
          · exact .inr (.inl (.inr (.inl ⟨hz, hxz, hzy⟩)))
          · exact .inr (.inl (.inr (.inr (eq_of_valueAt h hy hz hzy.symm).symm)))
          · exact .inr (.inr ⟨hz, hzy⟩)
        · exact .inr (.inl (.inl (eq_of_valueAt h hx hz hxz).symm))
        · exact .inl ⟨hz, hxz⟩
    · rintro (⟨hz, -⟩ | (rfl | ⟨hz, -⟩ | rfl) | ⟨hz, -⟩)
      · exact .inr (.inr hz)
      · exact .inl rfl
      · exact .inr (.inr hz)
      · exact .inr (.inl rfl)
      · exact .inr (.inr hz)

/-- **A window shows the function it is cut out of.** -/
theorem valueAt_windowOf {s : List (K × K)} {x y : K × K} (h : Rising s)
    (hx : valueAt s x.1 = some x.2) (hy : valueAt s y.1 = some y.2) (hxy : x.1 < y.1) {t : K}
    (hxt : x.1 ≤ t) (hty : t ≤ y.1) : valueAt (windowOf s x y) t = valueAt s t := by
  have hnext := refined_insertNode h hy
  have hx' : valueAt (insertNode y s) x.1 = some x.2 := by rw [hnext.valueAt_eq, hx]
  have hboth := hnext.trans (refined_insertNode (rising_insertNode y h) hx')
  have hparts := insertNode_eq_windowOf h hx hy hxy hx'
  have hrising := rising_insertNode x (rising_insertNode y h)
  rw [← hboth.valueAt_eq, hparts]
  rw [hparts] at hrising
  rw [windowOf, List.cons_append] at hrising ⊢
  rw [valueAt_append_right hrising hxt]
  have hleft : Rising ((x :: between s x.1 y.1) ++ y :: s.filter (y.1 < ·.1)) := by
    have hright := (List.pairwise_append.1 hrising).2.1
    rwa [List.append_assoc] at hright
  have hcut := valueAt_append_left hleft hty
  simpa using hcut.symm

omit [LinearOrder K] [IsStrictOrderedRing K] in
theorem overSegments_append (f : K × K → K × K → K) (l r : List (K × K)) (p : K × K) :
    overSegments f (l ++ p :: r) = overSegments f (l ++ [p]) + overSegments f (p :: r) := by
  induction l with
  | nil => exact (zero_add _).symm
  | cons a l ih =>
    cases l with
    | nil =>
      simp only [List.cons_append, List.nil_append, overSegments, add_zero]
    | cons b l =>
      simp only [List.cons_append, overSegments] at ih ⊢
      rw [ih, add_assoc]

/-- **A sum over a window is the sum over its two parts.** -/
theorem overSegments_windowOf {s : List (K × K)} {x m y : K × K} (h : Rising s)
    (hx : valueAt s x.1 = some x.2) (hm : valueAt s m.1 = some m.2) (hy : valueAt s y.1 = some y.2)
    (hxm : x.1 < m.1) (hmy : m.1 < y.1) {f : K × K → K × K → K} (hf : Additive f) :
    overSegments f (windowOf s x y) =
      overSegments f (windowOf s x m) + overSegments f (windowOf s m y) := by
  have hxy := hxm.trans hmy
  have hwindow := rising_windowOf h hxy
  have hvalue : valueAt (windowOf s x y) m.1 = some m.2 := by
    rw [valueAt_windowOf h hx hy hxy hxm.le hmy.le, hm]
  have hcut : insertNode m (windowOf s x y) =
      (x :: between s x.1 m.1) ++ m :: (between s m.1 y.1 ++ [y]) := by
    refine eq_of_mem_iff (rising_insertNode m hwindow) ?_ fun z => ?_
    · have hleft := rising_windowOf h hxm
      have hright := rising_windowOf h hmy
      rw [windowOf, ← List.cons_append] at hleft
      refine List.pairwise_append.2 ⟨(List.pairwise_append.1 hleft).1, hright, fun z hz w hw => ?_⟩
      have hzm : z.1 < m.1 := (List.pairwise_append.1 hleft).2.2 z hz m (List.mem_singleton_self m)
      rcases List.mem_cons.1 hw with rfl | hw
      · exact hzm
      · exact hzm.trans ((List.pairwise_cons.1 hright).1 w hw)
    · rw [mem_insertNode hwindow hvalue, mem_windowOf]
      simp only [List.mem_append, List.mem_cons, mem_between, List.not_mem_nil, or_false]
      constructor
      · rintro (rfl | rfl | ⟨hz, hxz, hzy⟩ | rfl)
        · exact .inr (.inl rfl)
        · exact .inl (.inl rfl)
        · rcases lt_trichotomy z.1 m.1 with hzm | hzm | hzm
          · exact .inl (.inr ⟨hz, hxz, hzm⟩)
          · exact .inr (.inl (eq_of_valueAt h hm hz hzm.symm).symm)
          · exact .inr (.inr (.inl ⟨hz, hzm, hzy⟩))
        · exact .inr (.inr (.inr rfl))
      · rintro ((rfl | ⟨hz, hxz, hzm⟩) | rfl | ⟨hz, hmz, hzy⟩ | rfl)
        · exact .inr (.inl rfl)
        · exact .inr (.inr (.inl ⟨hz, hxz, hzm.trans hmy⟩))
        · exact .inl rfl
        · exact .inr (.inr (.inl ⟨hz, hxm.trans hmz, hzy⟩))
        · exact .inr (.inr (.inr rfl))
  rw [← (refined_insertNode hwindow hvalue).overSegments_eq f hf, hcut, overSegments_append]
  rfl

/-! ### Areas -/

/-- The area below a segment. -/
def area (p q : K × K) : K := (q.1 - p.1) * (p.2 + q.2) / (2 : ℕ)

/-- The area below the square of a segment. -/
def squareArea (p q : K × K) : K := (q.1 - p.1) * (p.2 * p.2 + p.2 * q.2 + q.2 * q.2) / (3 : ℕ)

omit [LinearOrder K] [IsStrictOrderedRing K] in
theorem area_eq (p q : K × K) : area p q = (q.1 - p.1) * (p.2 + q.2) / 2 := by
  rw [area, Nat.cast_ofNat]

omit [LinearOrder K] [IsStrictOrderedRing K] in
theorem squareArea_eq (p q : K × K) :
    squareArea p q = (q.1 - p.1) * (p.2 * p.2 + p.2 * q.2 + q.2 * q.2) / 3 := by
  rw [squareArea, Nat.cast_ofNat]

theorem additive_area : Additive (area : K × K → K × K → K) := by
  intro p q t hp hq
  have hne : q.1 - p.1 ≠ 0 := (sub_pos.2 (hp.trans hq)).ne'
  simp only [area_eq, line]
  field_simp
  ring

theorem additive_squareArea : Additive (squareArea : K × K → K × K → K) := by
  intro p q t hp hq
  have hne : q.1 - p.1 ≠ 0 := (sub_pos.2 (hp.trans hq)).ne'
  simp only [squareArea_eq, line]
  field_simp
  ring

omit [LinearOrder K] [IsStrictOrderedRing K] in
theorem overSegments_span (p : K × K) (s : List (K × K)) :
    overSegments (fun p q => q.1 - p.1) (p :: s) =
      ((p :: s).getLast (List.cons_ne_nil p s)).1 - p.1 := by
  induction s generalizing p with
  | nil => exact (sub_self _).symm
  | cons q s ih =>
    rw [overSegments, ih, List.getLast_cons (List.cons_ne_nil q s)]
    ring

theorem overSegments_area_constant {s : List (K × K)} {y : K} (hall : ∀ x ∈ s, x.2 = y) :
    overSegments area s = y * overSegments (fun p q => q.1 - p.1) s := by
  induction s with
  | nil => exact (mul_zero y).symm
  | cons p s ih =>
    cases s with
    | nil => exact (mul_zero y).symm
    | cons q s =>
      rw [overSegments, overSegments, ih fun x hx => hall x (List.mem_cons_of_mem p hx), area_eq,
        hall p List.mem_cons_self, hall q (List.mem_cons_of_mem p List.mem_cons_self)]
      ring

omit [LinearOrder K] [IsStrictOrderedRing K] in
/-- The area below a difference. -/
theorem overSegments_area_sub (ts : List K) (f g : K → K) :
    overSegments area (ts.map fun t => (t, f t - g t)) =
      overSegments area (ts.map fun t => (t, f t)) -
        overSegments area (ts.map fun t => (t, g t)) := by
  induction ts with
  | nil => exact (sub_zero 0).symm
  | cons t ts ih =>
    cases ts with
    | nil => exact (sub_zero 0).symm
    | cons u ts =>
      simp only [List.map_cons, overSegments, area_eq] at ih ⊢
      rw [ih]
      ring

/-- The area below the square of a function that is moved down. -/
theorem overSegments_squareArea_sub (s : List (K × K)) (m : K) :
    overSegments squareArea (s.map fun x => (x.1, x.2 - m)) =
      overSegments squareArea s - 2 * m * overSegments area s +
        m * m * overSegments (fun p q => q.1 - p.1) s := by
  induction s with
  | nil => simp [overSegments]
  | cons p s ih =>
    cases s with
    | nil => simp [overSegments]
    | cons q s =>
      simp only [List.map_cons, overSegments, squareArea_eq, area_eq] at ih ⊢
      rw [ih]
      field_simp
      ring

theorem squareArea_nonneg {p q : K × K} (h : p.1 < q.1) : 0 ≤ squareArea p q := by
  have hspan : 0 ≤ q.1 - p.1 := (sub_pos.2 h).le
  have hsquares : p.2 * p.2 + p.2 * q.2 + q.2 * q.2 =
      ((p.2 + q.2) * (p.2 + q.2) + p.2 * p.2 + q.2 * q.2) / 2 := by ring
  rw [squareArea_eq, hsquares]
  have := mul_self_nonneg (p.2 + q.2)
  have := mul_self_nonneg p.2
  have := mul_self_nonneg q.2
  positivity

theorem squareArea_eq_zero {p q : K × K} (h : p.1 < q.1) :
    squareArea p q = 0 ↔ p.2 = 0 ∧ q.2 = 0 := by
  have hspan : q.1 - p.1 ≠ 0 := (sub_pos.2 h).ne'
  constructor
  · intro heq
    have hsum : p.2 * p.2 + p.2 * q.2 + q.2 * q.2 = 0 := by
      rw [squareArea_eq, div_eq_zero_iff, mul_eq_zero, or_assoc] at heq
      rcases heq with heq | heq | heq
      · exact absurd heq hspan
      · exact heq
      · norm_num at heq
    have hpq := mul_self_nonneg (p.2 + q.2)
    have hp := mul_self_nonneg p.2
    have hq := mul_self_nonneg q.2
    exact ⟨mul_self_eq_zero.1 (by nlinarith), mul_self_eq_zero.1 (by nlinarith)⟩
  · rintro ⟨hp, hq⟩
    rw [squareArea_eq, hp, hq]
    ring

theorem overSegments_squareArea_nonneg {s : List (K × K)} (h : Rising s) :
    0 ≤ overSegments squareArea s := by
  induction s with
  | nil => exact le_rfl
  | cons p s ih =>
    cases s with
    | nil => exact le_rfl
    | cons q s =>
      obtain ⟨hp, hs⟩ := List.pairwise_cons.1 h
      exact add_nonneg (squareArea_nonneg (hp q List.mem_cons_self)) (ih hs)

theorem overSegments_squareArea_eq_zero {p q : K × K} {s : List (K × K)} (h : Rising (p :: q :: s)) :
    overSegments squareArea (p :: q :: s) = 0 ↔ ∀ x ∈ p :: q :: s, x.2 = 0 := by
  induction s generalizing p q with
  | nil =>
    have hlast : overSegments squareArea [q] = 0 := rfl
    rw [overSegments, hlast, add_zero,
      squareArea_eq_zero ((List.pairwise_cons.1 h).1 q List.mem_cons_self)]
    simp
  | cons r s ih =>
    obtain ⟨hp, hs⟩ := List.pairwise_cons.1 h
    have hpq := hp q List.mem_cons_self
    rw [overSegments, add_eq_zero_iff_of_nonneg (squareArea_nonneg hpq)
      (overSegments_squareArea_nonneg hs), ih hs, squareArea_eq_zero hpq]
    simp only [List.forall_mem_cons]
    tauto

end PiecewiseLinear
end OpenFoamAgent
