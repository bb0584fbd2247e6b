/-
# Runs at the end of a sequence

A counter that goes up by one where a decision holds and back to zero where it does not
counts the decisions in a row at the end. It reaches a number exactly when the sequence is
that long and every one of its last decisions holds (`le_trailing_iff`).
-/
import Mathlib.Data.List.Induction

namespace OpenFoamAgent

/-- The counter after one more decision. -/
def countRun (count : ℕ) (decision : Bool) : ℕ := if decision then count + 1 else 0

/-- The counter after a sequence of decisions. -/
def trailing (decisions : List Bool) : ℕ := decisions.foldl countRun 0

/-- The last elements of a list. -/
def suffixOf {α : Type} (n : ℕ) (l : List α) : List α := l.drop (l.length - n)

theorem trailing_concat (decisions : List Bool) (decision : Bool) :
    trailing (decisions ++ [decision]) = countRun (trailing decisions) decision :=
  List.foldl_append

theorem suffixOf_of_length_le {α : Type} {n : ℕ} {l : List α} (h : l.length ≤ n) :
    suffixOf n l = l := by
  rw [suffixOf, Nat.sub_eq_zero_of_le h, List.drop_zero]

theorem suffixOf_concat {α : Type} (n : ℕ) (l : List α) (a : α) (h : n ≤ l.length) :
    suffixOf (n + 1) (l ++ [a]) = suffixOf n l ++ [a] := by
  have hlen : (l ++ [a]).length - (n + 1) = l.length - n := by
    rw [List.length_append, List.length_singleton]
    omega
  rw [suffixOf, hlen, List.drop_append_of_le_length (Nat.sub_le _ _)]
  rfl

theorem suffixOf_cons_of_le {α : Type} {n : ℕ} {a : α} {l : List α} (h : n ≤ l.length) :
    suffixOf n (a :: l) = suffixOf n l := by
  rw [suffixOf, suffixOf, List.length_cons, Nat.succ_sub h, List.drop_succ_cons]

theorem map_suffixOf {α β : Type} (f : α → β) (n : ℕ) (l : List α) :
    (suffixOf n l).map f = suffixOf n (l.map f) := by
  rw [suffixOf, suffixOf, List.map_drop, List.length_map]

/-- **What the counter says**: the last decisions hold, and there are enough of them. -/
theorem le_trailing_iff {n : ℕ} {decisions : List Bool} :
    n ≤ trailing decisions ↔ n ≤ decisions.length ∧ ∀ d ∈ suffixOf n decisions, d = true := by
  induction decisions using List.reverseRecOn generalizing n with
  | nil =>
    constructor
    · intro h
      exact ⟨h, fun d hd => by simp [suffixOf] at hd⟩
    · exact fun h => h.1
  | append_singleton decisions d ih =>
    cases n with
    | zero => simp [suffixOf]
    | succ n =>
      rw [trailing_concat, countRun, List.length_append, List.length_singleton]
      constructor
      · intro h
        split_ifs at h with hd
        · obtain ⟨hlen, hall⟩ := ih.1 (Nat.le_of_succ_le_succ h)
          refine ⟨Nat.succ_le_succ hlen, fun b hb => ?_⟩
          rw [suffixOf_concat n _ _ hlen] at hb
          rcases List.mem_append.1 hb with hb | hb
          · exact hall b hb
          · rw [List.mem_singleton.1 hb, hd]
        · exact absurd h (Nat.not_succ_le_zero n)
      · rintro ⟨hlen, hall⟩
        have hlen' := Nat.le_of_succ_le_succ hlen
        rw [suffixOf_concat n _ _ hlen'] at hall
        rw [if_pos (hall d (List.mem_append_right _ (List.mem_singleton_self d)))]
        exact Nat.succ_le_succ (ih.2 ⟨hlen', fun b hb => hall b (List.mem_append_left _ hb)⟩)

end OpenFoamAgent
