/-
# Entries below all later ones

A list is read in order onto a stack: an entry takes the entries off the end of the
stack whose key is not below its own, and then goes there itself (`push`). However
often the keys fall back, what is left are the entries whose key is below the key of
every later entry (`foldl_push`).
-/
import Mathlib.Data.List.DropRight
import Mathlib.Data.List.Induction
import Mathlib.Order.Lattice

namespace OpenFoamAgent
namespace Survivors

variable {α τ : Type} [LinearOrder τ] (key : α → τ)

/-- The entries whose key is below the key of every later entry. -/
def survivors : List α → List α
  | [] => []
  | a :: l => if ∀ b ∈ l, key a < key b then a :: survivors l else survivors l

/-- One entry more on the stack. -/
def push (stack : List α) (a : α) : List α :=
  stack.rdropWhile (fun b => key a ≤ key b) ++ [a]

theorem survivors_sublist (l : List α) : (survivors key l).Sublist l := by
  induction l with
  | nil => exact .slnil
  | cons a l ih =>
    rw [survivors]
    split_ifs
    · exact ih.cons_cons a
    · exact ih.cons a

theorem pairwise_survivors (l : List α) : (survivors key l).Pairwise (key · < key ·) := by
  induction l with
  | nil => exact .nil
  | cons a l ih =>
    rw [survivors]
    split_ifs with h
    · exact ih.cons fun b hb => h b ((survivors_sublist key l).subset hb)
    · exact ih

theorem survivors_concat (l : List α) (a : α) :
    survivors key (l ++ [a]) = (survivors key l).filter (key · < key a) ++ [a] := by
  induction l with
  | nil => simp [survivors]
  | cons b l ih =>
    rw [List.cons_append, survivors, survivors, ih]
    by_cases h : ∀ c ∈ l, key b < key c
    · by_cases hb : key b < key a
      · have hall : ∀ c ∈ l ++ [a], key b < key c := fun c hc =>
          (List.mem_append.1 hc).elim (h c) fun hc => List.mem_singleton.1 hc ▸ hb
        rw [if_pos h, if_pos hall, List.filter_cons_of_pos (by simpa using hb), List.cons_append]
      · have hnot : ¬ ∀ c ∈ l ++ [a], key b < key c := fun hall =>
          hb (hall a (List.mem_append_right _ (List.mem_singleton_self a)))
        rw [if_pos h, if_neg hnot, List.filter_cons_of_neg (by simpa using hb)]
    · have hnot : ¬ ∀ c ∈ l ++ [a], key b < key c := fun hall =>
        h fun c hc => hall c (List.mem_append_left _ hc)
      rw [if_neg h, if_neg hnot]

/-- On a stack of rising keys the entries that go are those that are not below the new one. -/
theorem rdropWhile_eq_filter {stack : List α} (h : stack.Pairwise (key · < key ·)) (a : α) :
    stack.rdropWhile (fun b => key a ≤ key b) = stack.filter (key · < key a) := by
  induction stack using List.reverseRecOn with
  | nil => rfl
  | append_singleton stack b ih =>
    obtain ⟨hstack, -, hlast⟩ := List.pairwise_append.1 h
    by_cases hb : key a ≤ key b
    · rw [List.rdropWhile_concat_pos _ _ _ (by simpa using hb), ih hstack, List.filter_append,
        List.filter_cons_of_neg (by simpa using hb), List.filter_nil, List.append_nil]
    · rw [List.rdropWhile_concat_neg _ _ _ (by simpa using hb)]
      refine (List.filter_eq_self.2 fun c hc => ?_).symm
      rw [decide_eq_true_iff]
      rcases List.mem_append.1 hc with hc | hc
      · exact (hlast c hc b (List.mem_singleton_self b)).trans (not_le.1 hb)
      · rw [List.mem_singleton.1 hc]
        exact not_le.1 hb

/-- **What is left of a list that was read onto the stack.** -/
theorem foldl_push (l : List α) : l.foldl (push key) [] = survivors key l := by
  induction l using List.reverseRecOn with
  | nil => rfl
  | append_singleton l a ih =>
    rw [List.foldl_append, ih, survivors_concat, List.foldl_cons, List.foldl_nil, push,
      rdropWhile_eq_filter key (pairwise_survivors key l)]

end Survivors
end OpenFoamAgent
