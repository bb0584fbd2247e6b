/-
# Closure with a worklist

The loop that keeps the elements selected and those still to look at: it takes the last of
these, finds its successors, and notes each one that is not selected yet. In
`Library.Exploration` an element is marked when it is taken; here it is marked when it is
noted, so no element is looked at twice.

What the loop gives does not depend on the order of the list: exactly the elements reached
(`closeOver_ok`).
-/
import OpenFoamAgent.Library.Exploration
import OpenFoamAgent.Library.Traversal

namespace OpenFoamAgent
namespace Worklist

variable {α ε : Type} [DecidableEq α] (step : α → Except ε (List α))

/-- A successor is selected, and to be looked at where it was not selected before. -/
def note (s : List α × List α) (y : α) : List α × List α :=
  if y ∈ s.1 then s else (y :: s.1, y :: s.2)

/-- The loop: the elements selected, and those to look at with the last one first. -/
def closeOver : ℕ → List α × List α → Except ε (List α)
  | 0, s => .ok s.1
  | _ + 1, (selected, []) => .ok selected
  | turns + 1, (selected, x :: todo) => do
    let ys ← step x
    closeOver turns (ys.foldl note (selected, todo))

/-! ### Noting the successors -/

theorem mem_note {s : List α × List α} {x y : α} : x ∈ (note s y).1 ↔ x ∈ s.1 ∨ x = y := by
  unfold note
  split_ifs with h
  · exact ⟨.inl, fun hx => hx.elim id fun hx => hx ▸ h⟩
  · rw [List.mem_cons, or_comm]

theorem mem_notes {ys : List α} {s : List α × List α} {x : α} :
    x ∈ (ys.foldl note s).1 ↔ x ∈ s.1 ∨ x ∈ ys := by
  induction ys generalizing s with
  | nil => simp
  | cons y ys ih => rw [List.foldl_cons, ih, mem_note, List.mem_cons, or_assoc]

/-- What is to be looked at afterwards was so before, or is selected now. -/
theorem mem_todo_note {s : List α × List α} {x y : α} (h : x ∈ (note s y).2) :
    x ∈ s.2 ∨ x ∈ (note s y).1 := by
  unfold note at h ⊢
  split_ifs at h ⊢
  · exact .inl h
  · rcases List.mem_cons.1 h with rfl | h
    · exact .inr List.mem_cons_self
    · exact .inl h

theorem todo_subset_notes {ys : List α} {s : List α × List α} (h : ∀ x ∈ s.2, x ∈ s.1) :
    ∀ x ∈ (ys.foldl note s).2, x ∈ (ys.foldl note s).1 := by
  induction ys generalizing s with
  | nil => exact h
  | cons y ys ih =>
    refine ih fun x hx => ?_
    rcases mem_todo_note hx with hx | hx
    · exact mem_note.2 (.inl (h x hx))
    · exact hx

theorem mem_todo_notes {ys : List α} {s : List α × List α} {x : α} (h : x ∈ s.2) :
    x ∈ (ys.foldl note s).2 := by
  induction ys generalizing s with
  | nil => exact h
  | cons y ys ih =>
    refine ih ?_
    unfold note
    split_ifs
    · exact h
    · exact List.mem_cons_of_mem _ h

/-- A selected element was selected before, or is to be looked at. -/
theorem mem_notes_cases {ys : List α} {s : List α × List α} {x : α}
    (h : x ∈ (ys.foldl note s).1) : x ∈ s.1 ∨ x ∈ (ys.foldl note s).2 := by
  induction ys generalizing s with
  | nil => exact .inl h
  | cons y ys ih =>
    rcases ih h with hx | hx
    · rcases mem_note.1 hx with hx | rfl
      · exact .inl hx
      · by_cases hold : x ∈ s.1
        · exact .inl hold
        · rw [List.foldl_cons]
          refine .inr (mem_todo_notes ?_)
          unfold note
          rw [if_neg hold]
          exact List.mem_cons_self
    · exact .inr hx

/-- The elements to look at and those not selected are no more afterwards. -/
theorem measure_notes {inside ys : List α} (hys : ∀ y ∈ ys, y ∈ inside) (s : List α × List α) :
    (ys.foldl note s).2.length + fresh inside (ys.foldl note s).1 ≤
      s.2.length + fresh inside s.1 := by
  induction ys generalizing s with
  | nil => exact le_refl _
  | cons y ys ih =>
    refine (ih (fun x hx => hys x (List.mem_cons_of_mem _ hx)) _).trans ?_
    unfold note
    split_ifs with h
    · exact le_refl _
    · have hlt := fresh_cons_lt (hys y List.mem_cons_self) h
      dsimp only
      rw [List.length_cons]
      omega

/-! ### The loop -/

variable {step} {start inside : List α}

/-- What holds of the loop started on a list. -/
structure Closing (step : α → Except ε (List α)) (start : List α) (s : List α × List α) :
    Prop where
  sound : ∀ x ∈ s.1, Reached step start x
  started : ∀ x ∈ start, x ∈ s.1
  todo : ∀ x ∈ s.2, x ∈ s.1
  closed : ∀ x ∈ s.1, x ∈ s.2 ∨ ∃ ys, step x = .ok ys ∧ ∀ y ∈ ys, y ∈ s.1

omit [DecidableEq α] in
theorem Closing.initial (start : List α) : Closing step start (start, start) where
  sound _ h := .start h
  started _ h := h
  todo _ h := h
  closed _ h := .inl h

theorem Closing.turn {x : α} {selected todo ys : List α}
    (h : Closing step start (selected, x :: todo)) (hys : step x = .ok ys) :
    Closing step start (ys.foldl note (selected, todo)) := by
  have hx := h.todo x List.mem_cons_self
  constructor
  · intro y hy
    rcases mem_notes.1 hy with hy | hy
    · exact h.sound y hy
    · exact .next (h.sound x hx) hys hy
  · exact fun y hy => mem_notes.2 (.inl (h.started y hy))
  · exact todo_subset_notes fun y hy => h.todo y (List.mem_cons_of_mem _ hy)
  · intro y hy
    rcases mem_notes_cases hy with hy | hy
    · rcases h.closed y hy with hy | ⟨zs, hzs, hclosed⟩
      · rcases List.mem_cons.1 hy with rfl | hy
        · exact .inr ⟨ys, hys, fun z hz => mem_notes.2 (.inr hz)⟩
        · exact .inl (mem_todo_notes hy)
      · exact .inr ⟨zs, hzs, fun z hz => mem_notes.2 (.inl (hclosed z hz))⟩
    · exact .inl hy

omit [DecidableEq α] in
/-- Nothing is left to look at: every element reached is selected. -/
theorem Closing.selected_of_reached {selected : List α} (h : Closing step start (selected, []))
    {x : α} (hx : Reached step start x) : x ∈ selected := by
  induction hx with
  | start hx => exact h.started _ hx
  | next _ hys hy ih =>
    obtain ⟨ys, hys', hclosed⟩ := (h.closed _ ih).resolve_left List.not_mem_nil
    obtain rfl := Except.ok.inj (hys.symm.trans hys')
    exact hclosed _ hy

/-- The loop ends with nothing to look at, or with an exception of an element reached. -/
theorem closeOver_ends {turns : ℕ} {s : List α × List α}
    (hinside : ∀ x ys, step x = .ok ys → ∀ y ∈ ys, y ∈ inside)
    (hturns : s.2.length + fresh inside s.1 < turns) (h : Closing step start s) :
    (∃ selected, closeOver step turns s = .ok selected ∧ Closing step start (selected, [])) ∨
      ∃ x e, Reached step start x ∧ step x = .error e ∧ closeOver step turns s = .error e := by
  induction turns generalizing s with
  | zero => exact absurd hturns (Nat.not_lt_zero _)
  | succ turns ih =>
    obtain ⟨selected, todo⟩ := s
    cases todo with
    | nil => exact .inl ⟨selected, rfl, h⟩
    | cons x todo =>
      rcases hstep : step x with e | ys
      · refine .inr ⟨x, e, h.sound x (h.todo x List.mem_cons_self), hstep, ?_⟩
        rw [closeOver, hstep]
        rfl
      · have hless := measure_notes (hinside x ys hstep) (selected, todo)
        dsimp only at hturns hless
        rw [List.length_cons] at hturns
        rcases ih (by omega) (h.turn hstep) with ⟨selected', hok, hclosing⟩ | ⟨y, e, hy, he, herr⟩
        · refine .inl ⟨selected', ?_, hclosing⟩
          rw [closeOver, hstep]
          exact hok
        · refine .inr ⟨y, e, hy, he, ?_⟩
          rw [closeOver, hstep]
          exact herr

/-- **What the loop gives**: the elements reached, each of which has successors. -/
theorem closeOver_ok {turns : ℕ} {selected : List α}
    (hinside : ∀ x ys, step x = .ok ys → ∀ y ∈ ys, y ∈ inside)
    (hturns : start.length + inside.length < turns)
    (h : closeOver step turns (start, start) = .ok selected) :
    (∀ x, Reached step start x → ∃ ys, step x = .ok ys) ∧
      ∀ x, x ∈ selected ↔ Reached step start x := by
  have hfresh : fresh inside start ≤ inside.length := List.length_filter_le _ _
  rcases closeOver_ends hinside (show start.length + fresh inside start < turns by omega)
    (Closing.initial start) with ⟨selected', hok, hclosing⟩ | ⟨x, e, -, -, herr⟩
  · obtain rfl := Except.ok.inj (h.symm.trans hok)
    refine ⟨fun x hx => ?_, fun x => ⟨hclosing.sound x, hclosing.selected_of_reached⟩⟩
    obtain ⟨ys, hys, -⟩ :=
      (hclosing.closed x (hclosing.selected_of_reached hx)).resolve_left List.not_mem_nil
    exact ⟨ys, hys⟩
  · rw [h] at herr
    cases herr

end Worklist
end OpenFoamAgent
