/-
# Items by key

A `dict` keyed by a part of its values, as the list of its values in the order
an iteration meets them: putting an item in the place of the one with its key,
or at the end, and removing the item of a key.
-/
import Mathlib.Data.List.Nodup

namespace OpenFoamAgent

variable {α : Type} {κ : Type} [DecidableEq κ] (keyOf : α → κ)

/-- `items.pop(key, None)`. -/
def popItem (key : κ) (items : List α) : List α := items.filter (keyOf · ≠ key)

/-- `items[key(x)] = x`. -/
def putItem (x : α) (items : List α) : List α :=
  if keyOf x ∈ items.map keyOf then items.map fun y => if keyOf y = keyOf x then x else y
  else items ++ [x]

variable {keyOf}

theorem mem_popItem {key : κ} {items : List α} {x : α} :
    x ∈ popItem keyOf key items ↔ x ∈ items ∧ keyOf x ≠ key := by
  simp [popItem]

theorem mem_putItem {items : List α} {x y : α} :
    y ∈ putItem keyOf x items ↔ y = x ∨ (y ∈ items ∧ keyOf y ≠ keyOf x) := by
  unfold putItem
  split_ifs with hmem
  · obtain ⟨z, hz, hzx⟩ := List.mem_map.1 hmem
    rw [List.mem_map]
    constructor
    · rintro ⟨w, hw, rfl⟩
      split_ifs with hwx
      · exact .inl rfl
      · exact .inr ⟨hw, hwx⟩
    · rintro (rfl | ⟨hy, hyx⟩)
      · exact ⟨z, hz, if_pos hzx⟩
      · exact ⟨y, hy, if_neg hyx⟩
  · rw [List.mem_append, List.mem_singleton]
    constructor
    · rintro (hy | rfl)
      · exact .inr ⟨hy, fun h => hmem (h ▸ List.mem_map_of_mem hy)⟩
      · exact .inl rfl
    · rintro (rfl | ⟨hy, -⟩)
      · exact .inr rfl
      · exact .inl hy

theorem nodup_popItem {key : κ} {items : List α} (h : (items.map keyOf).Nodup) :
    ((popItem keyOf key items).map keyOf).Nodup :=
  h.sublist (List.filter_sublist.map _)

theorem map_putItem {items : List α} {x : α} :
    (putItem keyOf x items).map keyOf =
      if keyOf x ∈ items.map keyOf then items.map keyOf else items.map keyOf ++ [keyOf x] := by
  unfold putItem
  split_ifs with hmem
  · rw [List.map_map]
    refine List.map_congr_left fun y _ => ?_
    by_cases hyx : keyOf y = keyOf x <;> simp [hyx]
  · simp

theorem nodup_putItem {items : List α} {x : α} (h : (items.map keyOf).Nodup) :
    ((putItem keyOf x items).map keyOf).Nodup := by
  rw [map_putItem]
  split_ifs with hmem
  · exact h
  · exact List.nodup_append.2 ⟨h, List.nodup_singleton _, fun a ha b hb hab =>
      hmem (List.mem_singleton.1 hb ▸ hab ▸ ha)⟩

theorem find?_map_put {items : List α} {x : α} {key : κ} :
    (items.map fun y => if keyOf y = keyOf x then x else y).find? (keyOf · = key) =
      if key = keyOf x then if keyOf x ∈ items.map keyOf then some x else none
      else items.find? (keyOf · = key) := by
  induction items with
  | nil => simp
  | cons y ys ih =>
    rw [List.map_cons, List.find?_cons, List.find?_cons, ih]
    by_cases hkey : key = keyOf x
    · subst hkey
      by_cases hyx : keyOf y = keyOf x
      · simp [hyx]
      · simp [hyx, Ne.symm hyx]
    · have hx : ¬ keyOf x = key := fun h => hkey h.symm
      by_cases hyx : keyOf y = keyOf x
      · simp [hyx, hx, hkey]
      · simp [hyx, hkey]

/-- Looking an item up by its key, where one was put. -/
theorem find?_putItem {items : List α} {x : α} {key : κ} :
    (putItem keyOf x items).find? (keyOf · = key) =
      if key = keyOf x then some x else items.find? (keyOf · = key) := by
  unfold putItem
  split_ifs with hmem hkey hkey
  · rw [find?_map_put, if_pos hkey, if_pos hmem]
  · rw [find?_map_put, if_neg hkey]
  · subst hkey
    have hnone : items.find? (keyOf · = keyOf x) = none :=
      List.find?_eq_none.2 fun y hy h => hmem (List.mem_map.2 ⟨y, hy, of_decide_eq_true h⟩)
    rw [List.find?_append, hnone]
    simp
  · have hx : ¬ keyOf x = key := fun h => hkey h.symm
    rw [List.find?_append]
    simp [hx]

/-- Looking an item up by its key, where one was removed. -/
theorem find?_popItem {items : List α} {key key' : κ} :
    (popItem keyOf key items).find? (keyOf · = key') =
      if key' = key then none else items.find? (keyOf · = key') := by
  unfold popItem
  rw [List.find?_filter]
  split_ifs with hkey
  · refine List.find?_eq_none.2 fun y _ h => ?_
    simp only [ne_eq, decide_not, Bool.not_eq_true', decide_eq_false_iff_not,
      decide_eq_true_eq] at h
    exact h.1 (h.2.trans hkey)
  · congr 1
    funext y
    by_cases hy : keyOf y = key'
    · simp [hy, hkey]
    · simp [hy]

end OpenFoamAgent
