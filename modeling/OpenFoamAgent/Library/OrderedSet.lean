/-
# Sets with an iteration order

A `set` of the language as the list of its elements in the order an iteration
meets them, without repetitions.
-/
import Mathlib.Data.List.Dedup

namespace OpenFoamAgent

/-- A finite set together with its iteration order. -/
structure OrderedSet (α : Type) where
  items : List α
  nodup : items.Nodup

namespace OrderedSet

variable {α : Type}

instance : Membership α (OrderedSet α) := ⟨fun s a => a ∈ s.items⟩

theorem mem_def {s : OrderedSet α} {a : α} : a ∈ s ↔ a ∈ s.items := Iff.rfl

variable [DecidableEq α]

instance (s : OrderedSet α) (a : α) : Decidable (a ∈ s) :=
  inferInstanceAs (Decidable (a ∈ s.items))

def empty : OrderedSet α := ⟨[], List.nodup_nil⟩

/-- The distinct elements of a list, in the order of their last occurrence. -/
def ofList (l : List α) : OrderedSet α := ⟨l.dedup, l.nodup_dedup⟩

/-- `set.add`. -/
def add (s : OrderedSet α) (a : α) : OrderedSet α := ⟨s.items.insert a, s.nodup.insert⟩

/-- `set.discard`. -/
def discard (s : OrderedSet α) (a : α) : OrderedSet α := ⟨s.items.erase a, s.nodup.erase a⟩

@[simp] theorem mem_add {s : OrderedSet α} {a b : α} : b ∈ s.add a ↔ b = a ∨ b ∈ s := by
  simp [mem_def, add]

@[simp] theorem mem_discard {s : OrderedSet α} {a b : α} :
    b ∈ s.discard a ↔ b ≠ a ∧ b ∈ s := by
  simp [mem_def, discard, s.nodup.mem_erase_iff]

@[simp] theorem mem_ofList {l : List α} {b : α} : b ∈ ofList l ↔ b ∈ l := by
  simp [mem_def, ofList]

end OrderedSet
end OpenFoamAgent
