/-
# Closed surfaces of polygons

A surface whose directed edges come in pairs of opposite directions (`Paired`) has no
boundary: what changes its sign with the direction of an edge sums up to zero over it
(`Paired.sum_eq_zero`). The area vector of a polygon, summed up over the triangles of a fan,
is such a sum over the edges around it (`fan_eq`). So the area vector of a closed surface
is zero, and a volume taken from cones over its polygons has no use for their apex.
-/
import Mathlib.Algebra.BigOperators.Group.List.Basic
import Mathlib.Algebra.Field.Basic
import Mathlib.Algebra.Group.Prod
import Mathlib.Data.List.Count
import Mathlib.Data.List.Perm.Basic
import Mathlib.Data.List.Rotate
import Mathlib.Tactic.Ring

namespace OpenFoamAgent
namespace ClosedSurface

/-! ### Edges -/

section
variable {V : Type}

/-- The edges around a polygon. -/
def edgesAround (p : List V) : List (V × V) := p.zip (p.rotate 1)

theorem edgesAround_cons_cons (u v : V) (p : List V) :
    edgesAround (u :: v :: p) = (u, v) :: (v :: p).zip (p ++ [u]) := by
  rw [edgesAround, List.rotate_cons_succ, List.rotate_zero]
  rfl

theorem edgesAround_map {W : Type} (f : V → W) (p : List V) :
    edgesAround (p.map f) = (edgesAround p).map (Prod.map f f) := by
  rw [edgesAround, edgesAround, ← List.map_rotate, List.zip_map]

/-- The ends of an edge of a polygon without repetitions differ. -/
theorem ne_of_mem_edgesAround {p : List V} (h : p.Nodup) (hlength : 2 ≤ p.length) {e : V × V}
    (he : e ∈ edgesAround p) : e.1 ≠ e.2 := by
  obtain ⟨i, hi, rfl⟩ := List.getElem_of_mem he
  rw [edgesAround, List.length_zip, List.length_rotate, min_self] at hi
  simp only [edgesAround, List.getElem_zip, List.getElem_rotate]
  rw [Ne, h.getElem_inj_iff]
  intro heq
  rcases Nat.lt_or_ge (i + 1) p.length with hlt | hge
  · rw [Nat.mod_eq_of_lt hlt] at heq
    omega
  · have hlast : i + 1 = p.length := by omega
    rw [hlast, Nat.mod_self] at heq
    omega

variable [DecidableEq V]

/-- Every directed edge is there once, and once in the other direction. -/
def Paired (D : List (V × V)) : Prop := ∀ e ∈ D, D.count e = 1 ∧ D.count e.swap = 1

theorem Paired.map_swap_perm {D : List (V × V)} (h : Paired D) : (D.map Prod.swap).Perm D := by
  rw [List.perm_iff_count]
  intro e
  have hcount : (D.map Prod.swap).count e = D.count e.swap := by
    have hswap := List.count_map_of_injective D Prod.swap Prod.swap_injective e.swap
    rwa [Prod.swap_swap] at hswap
  rw [hcount]
  by_cases he : e ∈ D
  · rw [(h e he).1, (h e he).2]
  · by_cases hswap : e.swap ∈ D
    · have hone := (h e.swap hswap).2
      rw [Prod.swap_swap] at hone
      exact absurd (List.count_pos_iff.1 (hone ▸ Nat.one_pos)) he
    · rw [List.count_eq_zero_of_not_mem he, List.count_eq_zero_of_not_mem hswap]

/-- **A closed surface has no boundary.** -/
theorem Paired.sum_eq_zero {G : Type} [AddCommGroup G] (htwo : ∀ x : G, x = -x → x = 0)
    {D : List (V × V)} (h : Paired D) {g : V × V → G} (hg : ∀ e, g e.swap = -g e) :
    (D.map g).sum = 0 := by
  refine htwo _ ?_
  have hneg : (D.map fun e => -g e).sum = -(D.map g).sum := by
    rw [List.sum_neg, List.map_map]
    rfl
  calc (D.map g).sum = ((D.map Prod.swap).map g).sum := (h.map_swap_perm.map g).sum_eq.symm
    _ = (D.map fun e => -g e).sum := by
      rw [List.map_map]
      exact congrArg List.sum (List.map_congr_left fun e _ => hg e)
    _ = -(D.map g).sum := hneg

end

/-! ### Polygons in space -/

section
variable {K : Type} [Field K]

/-- The vector product. -/
def vectorProduct (a b : K × K × K) : K × K × K :=
  (a.2.1 * b.2.2 - a.2.2 * b.2.1, a.2.2 * b.1 - a.1 * b.2.2, a.1 * b.2.1 - a.2.1 * b.1)

/-- The scalar product. -/
def scalarProduct (a b : K × K × K) : K := a.1 * b.1 + a.2.1 * b.2.1 + a.2.2 * b.2.2

theorem vectorProduct_swap (a b : K × K × K) : vectorProduct b a = -vectorProduct a b := by
  refine Prod.ext ?_ (Prod.ext ?_ ?_) <;>
    simp only [vectorProduct, Prod.fst_neg, Prod.snd_neg] <;> ring

theorem scalarProduct_zero (a : K × K × K) : scalarProduct a 0 = 0 := by
  simp [scalarProduct]

theorem scalarProduct_add (a b c : K × K × K) :
    scalarProduct a (b + c) = scalarProduct a b + scalarProduct a c := by
  simp only [scalarProduct, Prod.fst_add, Prod.snd_add]
  ring

theorem scalarProduct_sub (a b c : K × K × K) :
    scalarProduct (a - b) c = scalarProduct a c - scalarProduct b c := by
  simp only [scalarProduct, Prod.fst_sub, Prod.snd_sub]
  ring

/-- Twice the area vector of a polygon: the triangles of its fan. -/
def fan (p₀ : K × K × K) (p : List (K × K × K)) : K × K × K :=
  ((p.zip p.tail).map fun e => vectorProduct (e.1 - p₀) (e.2 - p₀)).sum

/-- **The area vector is a sum over the edges.** -/
theorem fan_eq (p₀ : K × K × K) (p : List (K × K × K)) :
    fan p₀ p = ((edgesAround (p₀ :: p)).map fun e => vectorProduct e.1 e.2).sum := by
  have hself : ∀ a : K × K × K, vectorProduct a a = 0 := by
    intro a
    refine Prod.ext ?_ (Prod.ext ?_ ?_) <;> simp only [vectorProduct, Prod.fst_zero, Prod.snd_zero] <;>
      ring
  have hpath : ∀ (p : List (K × K × K)) (q : K × K × K),
      (((q :: p).zip p).map fun e => vectorProduct (e.1 - p₀) (e.2 - p₀)).sum =
        vectorProduct p₀ q + (((q :: p).zip (p ++ [p₀])).map fun e => vectorProduct e.1 e.2).sum := by
    intro p
    induction p with
    | nil =>
      intro q
      simp [vectorProduct_swap p₀ q]
    | cons r p ih =>
      intro q
      have hstep : vectorProduct (q - p₀) (r - p₀) + vectorProduct p₀ r =
          vectorProduct p₀ q + vectorProduct q r := by
        refine Prod.ext ?_ (Prod.ext ?_ ?_) <;>
          simp only [vectorProduct, Prod.fst_sub, Prod.snd_sub, Prod.fst_add, Prod.snd_add] <;> ring
      rw [List.zip_cons_cons, List.map_cons, List.sum_cons, ih r, List.cons_append,
        List.zip_cons_cons, List.map_cons, List.sum_cons, ← add_assoc, ← add_assoc, hstep]
  cases p with
  | nil => simp [fan, edgesAround, hself]
  | cons q p =>
    rw [edgesAround_cons_cons, List.map_cons, List.sum_cons]
    exact hpath p q

end

end ClosedSurface
end OpenFoamAgent
