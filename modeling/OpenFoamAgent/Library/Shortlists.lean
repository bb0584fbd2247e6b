/-
# Shortlists

The best `k` entries of a list, in order: no entry that is left out comes strictly before one
that is kept. Sorting and cutting gives one (`shortlist_take`), and it does not matter in
which order the entries were found (`Shortlist.perm`).
-/
import Mathlib.Data.List.Sort

namespace OpenFoamAgent

variable {α : Type} {r : α → α → Prop}

/-- `ys` are the first `k` entries of `xs` in the order `r`. -/
structure Shortlist (r : α → α → Prop) (k : ℕ) (xs ys : List α) : Prop where
  ordered : ys.Pairwise r
  length : ys.length = min k xs.length
  best : ∃ rest, (ys ++ rest).Perm xs ∧ ∀ y ∈ ys, ∀ z ∈ rest, r y z

theorem Shortlist.perm {k : ℕ} {xs xs' ys : List α} (h : Shortlist r k xs ys)
    (hperm : xs.Perm xs') : Shortlist r k xs' ys where
  ordered := h.ordered
  length := by rw [h.length, hperm.length_eq]
  best := by
    obtain ⟨rest, hrest, hbest⟩ := h.best
    exact ⟨rest, hrest.trans hperm, hbest⟩

/-- A sorted list, cut off. -/
theorem shortlist_take [DecidableRel r] [Std.Total r] [IsTrans α r] (k : ℕ) (xs : List α) :
    Shortlist r k xs ((xs.insertionSort r).take k) := by
  have hsorted := List.pairwise_insertionSort r xs
  rw [← List.take_append_drop k (xs.insertionSort r), List.pairwise_append] at hsorted
  obtain ⟨hordered, -, hbest⟩ := hsorted
  refine ⟨hordered, ?_, (xs.insertionSort r).drop k, ?_, hbest⟩
  · rw [List.length_take, List.length_insertionSort]
  · rw [List.take_append_drop]
    exact List.perm_insertionSort r xs

end OpenFoamAgent
