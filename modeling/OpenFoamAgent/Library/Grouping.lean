/-
# Grouping

The dictionary of lists that `groups.setdefault(key, []).append(value)` builds:
under each key the values that came with it, in their order. And the keys a loop enters one after the
other when it refuses those it has met.
-/
import OpenFoamAgent.Library.Dict

namespace OpenFoamAgent
namespace Dict

variable {κ α : Type} [DecidableEq κ]

/-- `groups.setdefault(key, []).append(value)`. -/
def push (groups : Dict κ (List α)) (item : κ × α) : Dict κ (List α) :=
  groups.insert item.1 ((groups.get item.1).getD [] ++ [item.2])

/-- The groups of the items. -/
def group (items : List (κ × α)) : Dict κ (List α) := items.foldl push ∅

theorem get_push (groups : Dict κ (List α)) (item : κ × α) (k : κ) :
    ((groups.push item).get k).getD [] =
      (groups.get k).getD [] ++ if item.1 = k then [item.2] else [] := by
  rw [push, get_insert]
  split_ifs with h h' h'
  · subst h; rfl
  · exact absurd h.symm h'
  · exact absurd h'.symm h
  · rw [List.append_nil]

theorem get_group (items : List (κ × α)) (k : κ) :
    ((group items).get k).getD [] =
      (items.filter fun item => item.1 = k).map Prod.snd := by
  induction items using List.reverseRecOn with
  | nil => rfl
  | append_singleton items item ih =>
    rw [group, List.foldl_concat, get_push, ← group, ih, List.filter_append, List.map_append]
    by_cases h : item.1 = k <;> simp [h]

/-- The keys are those of the items. -/
theorem mem_group {items : List (κ × α)} {k : κ} :
    k ∈ group items ↔ k ∈ items.map Prod.fst := by
  induction items using List.reverseRecOn with
  | nil => simp [group, AList.notMem_empty]
  | append_singleton items item ih =>
    rw [group, List.foldl_concat, push, AList.mem_insert, ← group, ih, List.map_append,
      List.mem_append, List.map_singleton, List.mem_singleton, or_comm]

/-- None of the keys is in the dictionary, and none comes twice. -/
def Fresh (d : Dict κ α) (keys : List κ) : Prop := (∀ k ∈ keys, d.get k = none) ∧ keys.Nodup

theorem fresh_empty {keys : List κ} : Fresh (∅ : Dict κ α) keys ↔ keys.Nodup :=
  and_iff_right fun k _ => get_empty k

theorem fresh_nil (d : Dict κ α) : Fresh d [] := ⟨nofun, List.nodup_nil⟩

/-- A loop that enters each key it meets meets fresh keys only. -/
theorem fresh_cons {d : Dict κ α} {k : κ} {keys : List κ} (a : α) :
    Fresh d (k :: keys) ↔ d.get k = none ∧ Fresh (d.insert k a) keys := by
  unfold Fresh
  rw [List.forall_mem_cons, List.nodup_cons]
  constructor
  · rintro ⟨⟨hk, hall⟩, hnotin, hnodup⟩
    refine ⟨hk, fun k' hk' => ?_, hnodup⟩
    rw [get_insert_of_ne d a fun h : k' = k => hnotin (h ▸ hk')]
    exact hall k' hk'
  · rintro ⟨hk, hall, hnodup⟩
    have hne : ∀ k' ∈ keys, k' ≠ k := by
      rintro k' hk' rfl
      have := hall k' hk'
      rw [get_insert_self] at this
      cases this
    refine ⟨⟨hk, fun k' hk' => ?_⟩, fun hin => hne k hin rfl, hnodup⟩
    rw [← get_insert_of_ne d a (hne k' hk')]
    exact hall k' hk'

end Dict
end OpenFoamAgent
