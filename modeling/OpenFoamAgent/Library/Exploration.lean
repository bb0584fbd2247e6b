/-
# Exploration with a stack

The loop that pops an element off a stack, passes over one it has met, and
pushes the successors of a new one. Finding the successors may raise. The
number of turns bounds the new elements; where the successors stay inside a
finite list, that many turns and one suffice.

What the loop gives does not depend on the order of the stack: it raises unless
every element reached has successors, and it finds the successors of exactly
the elements reached (`explore_ok`). Further turns change
nothing (`explore_stable`).
-/
import Mathlib.Data.List.TakeWhile
import Mathlib.Logic.Relation

namespace OpenFoamAgent

variable {α ε : Type} (step : α → Except ε (List α))

/-- The elements reached from a list along the successors. -/
inductive Reached (start : List α) : α → Prop where
  | start {x : α} (h : x ∈ start) : Reached start x
  | next {x y : α} {ys : List α} (h : Reached start x) (hstep : step x = .ok ys) (hy : y ∈ ys) :
    Reached start y

variable {step} in
/-- The elements reached, along the relation of an element to its successors. -/
theorem Reached.reflTransGen {r : α → α → Prop}
    (hr : ∀ x ys, step x = .ok ys → ∀ y, y ∈ ys ↔ r x y) {start : List α} {x : α}
    (h : Reached step start x) : ∃ s ∈ start, Relation.ReflTransGen r s x := by
  induction h with
  | start hx => exact ⟨_, hx, .refl⟩
  | next _ hys hy ih =>
    obtain ⟨s, hs, hreached⟩ := ih
    exact ⟨s, hs, hreached.tail ((hr _ _ hys _).1 hy)⟩

variable {step} in
/-- Where every element reached has successors, what the relation leads to is reached. -/
theorem Reached.of_reflTransGen {r : α → α → Prop}
    (hr : ∀ x ys, step x = .ok ys → ∀ y, y ∈ ys ↔ r x y) {start : List α}
    (hok : ∀ x, Reached step start x → ∃ ys, step x = .ok ys) {s x : α} (hs : s ∈ start)
    (h : Relation.ReflTransGen r s x) : Reached step start x := by
  induction h with
  | refl => exact .start hs
  | tail _ hxy ih =>
    obtain ⟨ys, hys⟩ := hok _ ih
    exact .next ih hys ((hr _ _ hys _).2 hxy)

variable [DecidableEq α]

/-- The loop: the stack with its top first, the elements done, the successors found. -/
def explore : ℕ → List α → List α → List α → Except ε (List α)
  | 0, _, _, found => .ok found
  | turns + 1, stack, done, found =>
    match stack.dropWhile (· ∈ done) with
    | [] => .ok found
    | x :: rest =>
      match step x with
      | .error e => .error e
      | .ok ys => explore turns (ys.reverse ++ rest) (x :: done) (found ++ ys)

/-- What holds of the loop started on a stack. -/
structure Exploring (start : List α) (stack done found : List α) : Prop where
  sound : ∀ x, x ∈ done ∨ x ∈ stack → Reached step start x
  covered : ∀ x ∈ start, x ∈ done ∨ x ∈ stack
  /-- The successors of an element that is done are met and found. -/
  closed : ∀ x ∈ done, ∃ ys, step x = .ok ys ∧ ∀ y ∈ ys, (y ∈ done ∨ y ∈ stack) ∧ y ∈ found
  origin : ∀ y ∈ found, ∃ x ys, Reached step start x ∧ step x = .ok ys ∧ y ∈ ys

namespace Exploring

variable {step} {start stack done found : List α}

omit [DecidableEq α] in
theorem initial (start : List α) : Exploring step start start [] [] where
  sound := fun _ h => .start (h.resolve_left List.not_mem_nil)
  covered := fun _ h => .inr h
  closed := fun _ h => absurd h List.not_mem_nil
  origin := fun _ h => absurd h List.not_mem_nil

/-- The loop passes over what is done. -/
theorem skip (h : Exploring step start stack done found) :
    Exploring step start (stack.dropWhile (· ∈ done)) done found := by
  have hkeep : ∀ x, x ∈ done ∨ x ∈ stack → x ∈ done ∨ x ∈ stack.dropWhile (· ∈ done) := by
    rintro x (hx | hx)
    · exact .inl hx
    · rw [← List.takeWhile_append_dropWhile (p := (· ∈ done)) (l := stack)] at hx
      rcases List.mem_append.1 hx with hx | hx
      · exact .inl (by simpa using List.mem_takeWhile_imp hx)
      · exact .inr hx
  refine ⟨fun x hx => h.sound x ?_, fun x hx => hkeep x (h.covered x hx), fun x hx => ?_, h.origin⟩
  · exact hx.imp_right fun hx => (List.dropWhile_suffix _).mem hx
  · obtain ⟨ys, hys, hclosed⟩ := h.closed x hx
    exact ⟨ys, hys, fun y hy => ⟨hkeep y (hclosed y hy).1, (hclosed y hy).2⟩⟩

omit [DecidableEq α] in
/-- A new element is done. -/
theorem turn {x : α} {rest ys : List α} (h : Exploring step start (x :: rest) done found)
    (hstep : step x = .ok ys) :
    Exploring step start (ys.reverse ++ rest) (x :: done) (found ++ ys) := by
  have hx : Reached step start x := h.sound x (.inr List.mem_cons_self)
  have hkeep : ∀ y, y ∈ done ∨ y ∈ x :: rest → y ∈ x :: done ∨ y ∈ ys.reverse ++ rest := by
    rintro y (hy | hy)
    · exact .inl (List.mem_cons_of_mem _ hy)
    · rcases List.mem_cons.1 hy with rfl | hy
      · exact .inl List.mem_cons_self
      · exact .inr (List.mem_append_right _ hy)
  constructor
  · rintro y (hy | hy)
    · rcases List.mem_cons.1 hy with rfl | hy
      · exact hx
      · exact h.sound y (.inl hy)
    · rcases List.mem_append.1 hy with hy | hy
      · exact .next hx hstep (List.mem_reverse.1 hy)
      · exact h.sound y (.inr (List.mem_cons_of_mem _ hy))
  · exact fun y hy => hkeep y (h.covered y hy)
  · intro y hy
    rcases List.mem_cons.1 hy with rfl | hy
    · refine ⟨ys, hstep, fun z hz => ⟨.inr ?_, List.mem_append_right _ hz⟩⟩
      exact List.mem_append_left _ (List.mem_reverse.2 hz)
    · obtain ⟨zs, hzs, hclosed⟩ := h.closed y hy
      exact ⟨zs, hzs, fun z hz =>
        ⟨hkeep z (hclosed z hz).1, List.mem_append_left _ (hclosed z hz).2⟩⟩
  · intro y hy
    rcases List.mem_append.1 hy with hy | hy
    · exact h.origin y hy
    · exact ⟨x, ys, hx, hstep, hy⟩

omit [DecidableEq α] in
/-- Nothing is left on the stack: every element reached is done. -/
theorem done_of_reached (h : Exploring step start [] done found) {x : α}
    (hx : Reached step start x) : x ∈ done := by
  induction hx with
  | start hx => exact (h.covered _ hx).resolve_right List.not_mem_nil
  | next _ hys hy ih =>
    obtain ⟨ys, hys', hclosed⟩ := h.closed _ ih
    obtain rfl := Except.ok.inj (hys.symm.trans hys')
    exact (hclosed _ hy).1.resolve_right List.not_mem_nil

end Exploring

/-! ### The result -/

variable {step} {start : List α} {inside : List α}

/-- The new elements of a finite list that are not done. -/
def fresh (inside done : List α) : ℕ := (inside.filter (· ∉ done)).length

theorem fresh_lt {done : List α} {turns : ℕ} (hturns : inside.length < turns) :
    fresh inside done < turns :=
  Nat.lt_of_le_of_lt (List.length_filter_le _ _) hturns

theorem fresh_cons_lt {done : List α} {x : α} (hin : x ∈ inside) (hx : x ∉ done) :
    fresh inside (x :: done) < fresh inside done := by
  have hsub : inside.filter (· ∉ x :: done) = (inside.filter (· ∉ done)).filter (· ≠ x) := by
    rw [List.filter_filter]
    refine List.filter_congr fun y _ => ?_
    by_cases hy : y = x <;> simp [hy]
  rw [fresh, fresh, hsub]
  exact List.length_filter_lt_length_iff_exists.2 ⟨x, by simp [hin, hx], by simp⟩

/-- The loop does not stop at what is done. -/
theorem not_mem_of_dropWhile_eq_cons {stack done rest : List α} {x : α}
    (h : stack.dropWhile (· ∈ done) = x :: rest) : x ∉ done := by
  have hhead := List.head?_dropWhile_not (p := (· ∈ done)) (l := stack)
  rw [h] at hhead
  simpa using hhead

/-- The loop ends with an empty stack, or with an exception of an element reached. -/
theorem explore_ends {turns : ℕ} {stack done found : List α}
    (hinside : ∀ x, Reached step start x → x ∈ inside) (hturns : fresh inside done < turns)
    (h : Exploring step start stack done found) :
    (∃ done' found', explore step turns stack done found = .ok found' ∧
        Exploring step start [] done' found') ∨
      ∃ x e, Reached step start x ∧ step x = .error e ∧
        explore step turns stack done found = .error e := by
  induction turns generalizing stack done found with
  | zero => exact absurd hturns (Nat.not_lt_zero _)
  | succ turns ih =>
    have hskip := h.skip
    unfold explore
    rcases hrest : stack.dropWhile (· ∈ done) with _ | ⟨x, rest⟩
    · rw [hrest] at hskip
      exact .inl ⟨done, found, rfl, hskip⟩
    · rw [hrest] at hskip
      have hx := not_mem_of_dropWhile_eq_cons hrest
      have hreached := hskip.sound x (.inr List.mem_cons_self)
      rcases hstep : step x with e | ys
      · exact .inr ⟨x, e, hreached, hstep, by simp [hstep]⟩
      · have hlt := fresh_cons_lt (hinside x hreached) hx
        simpa [hstep] using ih (by omega) (hskip.turn hstep)

/-- Further turns change nothing. -/
theorem explore_turns {turns turns' : ℕ} {stack done found : List α}
    (hinside : ∀ x, Reached step start x → x ∈ inside) (hturns : fresh inside done < turns)
    (hturns' : fresh inside done < turns') (h : Exploring step start stack done found) :
    explore step turns stack done found = explore step turns' stack done found := by
  induction turns generalizing turns' stack done found with
  | zero => exact absurd hturns (Nat.not_lt_zero _)
  | succ turns ih =>
    obtain ⟨turns', rfl⟩ := Nat.exists_eq_succ_of_ne_zero (Nat.ne_zero_of_lt hturns')
    have hskip := h.skip
    unfold explore
    rcases hrest : stack.dropWhile (· ∈ done) with _ | ⟨x, rest⟩
    · rfl
    · rw [hrest] at hskip
      rcases hstep : step x with e | ys
      · simp only [hstep]
      · have hreached := hskip.sound x (.inr List.mem_cons_self)
        have hlt := fresh_cons_lt (hinside x hreached) (not_mem_of_dropWhile_eq_cons hrest)
        simpa only [hstep] using ih (by omega) (by omega) (hskip.turn hstep)

variable (hinside : ∀ x, Reached step start x → x ∈ inside)
include hinside

/-- **What the loop gives**: every element reached has successors, and these are found. -/
theorem explore_ok {turns : ℕ} {found : List α} (hturns : inside.length < turns)
    (h : explore step turns start [] [] = .ok found) :
    (∀ x, Reached step start x → ∃ ys, step x = .ok ys) ∧
      ∀ y, y ∈ found ↔ ∃ x ys, Reached step start x ∧ step x = .ok ys ∧ y ∈ ys := by
  rcases explore_ends hinside (fresh_lt hturns) (Exploring.initial start) with
    ⟨done, found', hok, hend⟩ | ⟨x, e, -, -, herr⟩
  · obtain rfl := Except.ok.inj (h.symm.trans hok)
    refine ⟨fun x hx => ?_, fun y => ⟨hend.origin y, ?_⟩⟩
    · obtain ⟨ys, hys, -⟩ := hend.closed x (hend.done_of_reached hx)
      exact ⟨ys, hys⟩
    · rintro ⟨x, ys, hx, hys, hy⟩
      obtain ⟨zs, hzs, hclosed⟩ := hend.closed x (hend.done_of_reached hx)
      obtain rfl := Except.ok.inj (hys.symm.trans hzs)
      exact (hclosed y hy).2
  · rw [h] at herr
    cases herr

/-- More turns than there are elements to reach are as good as any. -/
theorem explore_stable {turns turns' : ℕ} (hturns : inside.length < turns)
    (hturns' : inside.length < turns') :
    explore step turns start [] [] = explore step turns' start [] [] :=
  explore_turns hinside (fresh_lt hturns) (fresh_lt hturns') (Exploring.initial start)

/-- What the loop raises, the step from an element reached raises. -/
theorem reached_of_explore_eq_error {turns : ℕ} {e : ε} (hturns : inside.length < turns)
    (h : explore step turns start [] [] = .error e) :
    ∃ x, Reached step start x ∧ step x = .error e := by
  rcases explore_ends hinside (fresh_lt hturns) (Exploring.initial start) with
    ⟨_, _, hok, -⟩ | ⟨x, e', hx, hstep, herror⟩
  · rw [h] at hok
    cases hok
  · obtain rfl := Except.error.inj (h.symm.trans herror)
    exact ⟨x, hx, hstep⟩

/-- What the loop finds lies one step or more from the start. -/
theorem mem_explore_iff {turns : ℕ} {found : List α} (hturns : inside.length < turns)
    {r : α → α → Prop} (hr : ∀ x ys, step x = .ok ys → ∀ y, y ∈ ys ↔ r x y)
    (h : explore step turns start [] [] = .ok found) (y : α) :
    y ∈ found ↔ ∃ s ∈ start, Relation.TransGen r s y := by
  obtain ⟨hok, hfound⟩ := explore_ok hinside hturns h
  rw [hfound]
  constructor
  · rintro ⟨x, ys, hx, hys, hy⟩
    obtain ⟨s, hs, hreached⟩ := hx.reflTransGen hr
    exact ⟨s, hs, .tail' hreached ((hr x ys hys y).1 hy)⟩
  · rintro ⟨s, hs, hreached⟩
    obtain ⟨x, hx, hxy⟩ := Relation.TransGen.tail'_iff.1 hreached
    have hx := Reached.of_reflTransGen hr hok hs hx
    obtain ⟨ys, hys⟩ := hok x hx
    exact ⟨x, ys, hx, hys, (hr x ys hys y).2 hxy⟩

end OpenFoamAgent
