/-
# Ascents of a sequence

A sequence read one value at a time, with three things kept: the last value, the
number of strict ascents, and whether the sequence ever fell. They are functions
of the sequence read (`Progress.noteAll_eq`).
-/
import Mathlib.Data.List.Chain
import Mathlib.Order.Lattice
import Mathlib.Order.Defs.LinearOrder

namespace OpenFoamAgent

variable {α : Type} [LinearOrder α]

/-- The strict ascents between neighbours. -/
def ascents : List α → ℕ
  | a :: b :: l => (if a < b then 1 else 0) + ascents (b :: l)
  | _ => 0

/-- What is kept of a sequence. -/
structure Progress (α : Type) where
  current : Option α := none
  steps : ℕ := 0
  reversed : Bool := false

namespace Progress

/-- One more value, which is compared with the last one or else with `start`. -/
def note (start : α) (p : Progress α) (v : α) : Progress α :=
  let previous := p.current.getD start
  { current := some v
    steps := if previous < v then p.steps + 1 else p.steps
    reversed := p.reversed || decide (v < previous) }

/-- The values of a sequence. -/
def noteAll (start : α) (p : Progress α) (vs : List α) : Progress α := vs.foldl (note start) p

theorem noteAll_append (start : α) (p : Progress α) (vs ws : List α) :
    p.noteAll start (vs ++ ws) = (p.noteAll start vs).noteAll start ws :=
  List.foldl_append

/-- A value that repeats the last one changes nothing. -/
theorem note_current (start : α) {p : Progress α} {v : α} (h : p.current = some v) :
    p.note start v = p := by
  unfold note
  cases p
  simp_all

/-- **The summary of a sequence**: its last value, its ascents, and whether it is ascending. -/
theorem noteAll_eq (start : α) (p : Progress α) (vs : List α) :
    p.noteAll start vs =
      { current := vs.getLast?.or p.current
        steps := p.steps + ascents (p.current.getD start :: vs)
        reversed := p.reversed || !decide ((p.current.getD start :: vs).IsChain (· ≤ ·)) } := by
  induction vs generalizing p with
  | nil => simp [noteAll, ascents]
  | cons v vs ih =>
    have hstep : p.noteAll start (v :: vs) = (p.note start v).noteAll start vs := rfl
    rw [hstep, ih]
    have hprev : (p.note start v).current.getD start = v := rfl
    have hsteps : (p.note start v).steps =
        p.steps + if p.current.getD start < v then 1 else 0 := by
      dsimp only [note]
      split_ifs <;> rfl
    have hlast : vs.getLast?.or (p.note start v).current = (v :: vs).getLast?.or p.current := by
      rw [List.getLast?_cons]
      cases vs.getLast? <;> rfl
    have hrev : (p.note start v).reversed = (p.reversed || !decide (p.current.getD start ≤ v)) := by
      rw [← decide_not]
      simp only [note, not_le]
    simp only [hprev, hsteps, hlast, hrev, ascents, List.isChain_cons_cons, Bool.decide_and,
      Bool.not_and, Bool.or_assoc, Nat.add_assoc]

end Progress
end OpenFoamAgent
