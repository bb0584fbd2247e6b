/-
# Balanced brackets

Words over tokens in which every bracket that opens is closed by its partner. `alone inside t`
says which tokens may stand for themselves between brackets, and which outside of all of them.

A scanner with a stack of open brackets accepts the words that close its stack (`Closes`). What
it does with one token is `Closes.token`, `Closes.opened` and `Closes.closed`.
-/
import Mathlib.Data.Set.Basic

namespace OpenFoamAgent
namespace Brackets

variable {τ : Type}

/-- A word whose brackets are balanced. -/
inductive Balanced (pairs : Set (τ × τ)) (alone : Bool → τ → Prop) : Bool → List τ → Prop
  | nil {inside : Bool} : Balanced pairs alone inside []
  | token {inside : Bool} {t : τ} {ts : List τ} (ht : alone inside t)
      (hts : Balanced pairs alone inside ts) : Balanced pairs alone inside (t :: ts)
  | group {inside : Bool} {o c : τ} {ts us : List τ} (hpair : (o, c) ∈ pairs)
      (hts : Balanced pairs alone true ts) (hus : Balanced pairs alone inside us) :
      Balanced pairs alone inside (o :: ts ++ c :: us)

/-- A word that closes the open brackets of a stack, the last one first. -/
def Closes (pairs : Set (τ × τ)) (alone : Bool → τ → Prop) : List τ → List τ → Prop
  | [], ts => Balanced pairs alone false ts
  | o :: stack, ts => ∃ c us vs, (o, c) ∈ pairs ∧ ts = us ++ c :: vs ∧
      Balanced pairs alone true us ∧ Closes pairs alone stack vs

variable {pairs : Set (τ × τ)} {alone : Bool → τ → Prop} {stack ts : List τ}

theorem Closes.token {t : τ} (ht : alone (!stack.isEmpty) t) (h : Closes pairs alone stack ts) :
    Closes pairs alone stack (t :: ts) := by
  cases stack with
  | nil => exact Balanced.token ht h
  | cons o stack =>
    obtain ⟨c, us, vs, hpair, rfl, hus, hvs⟩ := h
    exact ⟨c, t :: us, vs, hpair, rfl, .token ht hus, hvs⟩

/-- A bracket that opens is closed before those that were open. -/
theorem Closes.opened {o : τ} (h : Closes pairs alone (o :: stack) ts) :
    Closes pairs alone stack (o :: ts) := by
  obtain ⟨c, us, vs, hpair, rfl, hus, hvs⟩ := h
  cases stack with
  | nil => exact Balanced.group hpair hus hvs
  | cons o' stack =>
    obtain ⟨c', us', vs', hpair', rfl, hus', hvs'⟩ := hvs
    refine ⟨c', o :: us ++ c :: us', vs', hpair', ?_, .group hpair hus hus', hvs'⟩
    rw [List.append_assoc, List.cons_append, List.cons_append]

theorem Closes.closed {o c : τ} (hpair : (o, c) ∈ pairs) (h : Closes pairs alone stack ts) :
    Closes pairs alone (o :: stack) (c :: ts) :=
  ⟨c, [], ts, hpair, rfl, .nil, h⟩

end Brackets
end OpenFoamAgent
