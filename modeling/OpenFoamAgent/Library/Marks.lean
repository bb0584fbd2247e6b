/-
# Lists with marks

A list in which a mark may stand in the place of an element. Two readings of one
text that differ in what they leave out of it are two readings of one such list:
the first drops the marks (`List.reduceOption`), the second puts an element in
their places (`filled`). What both readings find is then compared on the list
with its marks.
-/
import Mathlib.Data.List.DropRight
import Mathlib.Data.List.ReduceOption

namespace OpenFoamAgent
namespace Marks

variable {α : Type*} {p : α → Bool}

/-- A list with marks. -/
abbrev Marked (α : Type*) := List (Option α)

/-- The list with `a` in the place of each mark. -/
def filled (a : α) (m : Marked α) : List α := m.map (·.getD a)

/-- A place that holds a mark or an element to be skipped. -/
def blank (p : α → Bool) (o : Option α) : Bool := o.all p

/-- The list without the blanks at its ends. -/
def trim (p : α → Bool) (m : Marked α) : Marked α := (m.dropWhile (blank p)).rdropWhile (blank p)

/-- The longest front with `n` elements. -/
def takeKept : ℕ → Marked α → Marked α
  | _, [] => []
  | n, none :: m => none :: takeKept n m
  | 0, some _ :: _ => []
  | n + 1, some a :: m => some a :: takeKept n m

/-- What stands behind the shortest front with `n` elements. -/
def dropKept : ℕ → Marked α → Marked α
  | 0, m => m
  | _ + 1, [] => []
  | n + 1, none :: m => dropKept (n + 1) m
  | n + 1, some _ :: m => dropKept n m

variable {a : α}

@[simp] theorem filled_nil : filled a [] = [] := rfl

@[simp] theorem filled_cons (o : Option α) (m : Marked α) :
    filled a (o :: m) = o.getD a :: filled a m := rfl

@[simp] theorem filled_append (m m' : Marked α) : filled a (m ++ m') = filled a m ++ filled a m' :=
  List.map_append

@[simp] theorem length_filled (m : Marked α) : (filled a m).length = m.length :=
  List.length_map _

theorem take_filled (n : ℕ) (m : Marked α) : (filled a m).take n = filled a (m.take n) :=
  List.map_take.symm

theorem drop_filled (n : ℕ) (m : Marked α) : (filled a m).drop n = filled a (m.drop n) :=
  List.map_drop.symm

theorem drop_filled_append (m m' : Marked α) (o : Option α) :
    (filled a (m ++ o :: m')).drop (m.length + 1) = filled a m' := by
  induction m with
  | nil => rfl
  | cons o m ih => exact ih

/-! ### Blanks -/

theorem reduceOption_dropWhile (p : α → Bool) (m : Marked α) :
    (m.dropWhile (blank p)).reduceOption = m.reduceOption.dropWhile p := by
  induction m with
  | nil => rfl
  | cons o m ih =>
    cases o with
    | none => exact ih
    | some c =>
      rw [List.reduceOption_cons_of_some]
      by_cases hc : p c = true
      · rw [List.dropWhile_cons_of_pos (show blank p (some c) = true from hc),
          List.dropWhile_cons_of_pos hc, ih]
      · rw [List.dropWhile_cons_of_neg (show ¬ blank p (some c) = true from hc),
          List.dropWhile_cons_of_neg hc, List.reduceOption_cons_of_some]

theorem blank_getD (ha : p a = true) (o : Option α) : p (o.getD a) = blank p o := by
  cases o with
  | none => exact ha
  | some c => rfl

theorem filled_dropWhile (ha : p a = true) (m : Marked α) :
    filled a (m.dropWhile (blank p)) = (filled a m).dropWhile p := by
  rw [filled, filled, List.dropWhile_map]
  congr 2
  exact funext fun o => (blank_getD ha o).symm

/-- Behind the blanks stands an element. -/
theorem dropWhile_eq_some_cons (m : Marked α) (o : Option α) (m' : Marked α)
    (h : m.dropWhile (blank p) = o :: m') : ∃ c, o = some c ∧ p c = false := by
  have hblank : blank p o = false := by
    have hne : m.dropWhile (blank p) ≠ [] := by rw [h]; exact List.cons_ne_nil _ _
    simpa [h] using List.head_dropWhile_not (blank p) hne
  cases o with
  | none => cases hblank
  | some c => exact ⟨c, rfl, hblank⟩

theorem filled_reverse (m : Marked α) : filled a m.reverse = (filled a m).reverse :=
  List.map_reverse

theorem reduceOption_reverse (m : Marked α) : m.reverse.reduceOption = m.reduceOption.reverse :=
  List.filterMap_reverse

/-- When no mark is left between the ends, both readings are the same up to their ends. -/
theorem trim_filled (ha : p a = true) {m : Marked α} (hm : none ∉ trim p m) :
    ((filled a m).dropWhile p).rdropWhile p = (m.reduceOption.dropWhile p).rdropWhile p := by
  have hfilled : filled a (trim p m) = ((filled a m).dropWhile p).rdropWhile p := by
    rw [trim, List.rdropWhile, filled_reverse, filled_dropWhile ha, filled_reverse,
      filled_dropWhile ha, List.rdropWhile]
  have hkept : (trim p m).reduceOption = (m.reduceOption.dropWhile p).rdropWhile p := by
    rw [trim, List.rdropWhile, reduceOption_reverse, reduceOption_dropWhile, reduceOption_reverse,
      reduceOption_dropWhile, List.rdropWhile]
  rw [← hfilled, ← hkept]
  generalize trim p m = s at hm
  induction s with
  | nil => rfl
  | cons o s ih =>
    cases o with
    | none => exact absurd List.mem_cons_self hm
    | some c =>
      rw [List.reduceOption_cons_of_some, filled_cons,
        ih fun h => hm (List.mem_cons_of_mem _ h)]
      rfl

/-! ### Fronts -/

/-- A front without the element that stands for a mark has no marks. -/
theorem exists_of_filled_eq_append {l x : List α} {m : Marked α} (hl : a ∉ l)
    (h : filled a m = l ++ x) : ∃ m', m = l.map some ++ m' ∧ filled a m' = x := by
  induction l generalizing m with
  | nil => exact ⟨m, rfl, h⟩
  | cons c l ih =>
    cases m with
    | nil => cases h
    | cons o m =>
      obtain ⟨hc, hm⟩ := List.cons.inj h
      obtain ⟨m', rfl, hm'⟩ := ih (fun hmem => hl (List.mem_cons_of_mem _ hmem)) hm
      refine ⟨m', ?_, hm'⟩
      cases o with
      | none => exact absurd (List.mem_cons.2 (.inl hc)) hl
      | some d =>
        obtain rfl : d = c := hc
        rfl

theorem reduceOption_map_some_append (l : List α) (m : Marked α) :
    (l.map some ++ m).reduceOption = l ++ m.reduceOption := by
  induction l with
  | nil => rfl
  | cons c l ih =>
    rw [List.map_cons, List.cons_append, List.reduceOption_cons_of_some, ih, List.cons_append]

theorem dropKept_map_some (l : List α) (m : Marked α) :
    dropKept l.length (l.map some ++ m) = m := by
  induction l with
  | nil => simp [dropKept]
  | cons c l ih => simpa [dropKept] using ih

theorem takeKept_append (m m' : Marked α) (c : α) :
    takeKept m.reduceOption.length (m ++ some c :: m') = m := by
  induction m with
  | nil => rfl
  | cons o m ih =>
    cases o with
    | none => exact (takeKept.eq_2 ..).trans (congrArg (none :: ·) ih)
    | some d => exact congrArg (some d :: ·) ih

theorem dropKept_append (m m' : Marked α) (c : α) :
    dropKept (m.reduceOption.length + 1) (m ++ some c :: m') = m' := by
  induction m with
  | nil => simp [dropKept]
  | cons o m ih =>
    cases o with
    | none => simpa [dropKept] using ih
    | some d => simpa [dropKept, List.reduceOption_cons_of_some] using ih

end Marks
end OpenFoamAgent
