/-
# Runs under a condition

A machine with a total step function `step : σ → α → σ`, the states a list of
actions leads through, and the induction rules the development uses: a property
or a relation that every step meeting a condition preserves holds along every
run whose steps all meet it.
-/
import Mathlib.Order.Defs.Unbundled
import Mathlib.Data.List.Basic

namespace OpenFoamAgent
namespace Runs

variable {σ α : Type*} (step : σ → α → σ)

/-- The state after the actions `as`. -/
def run (s : σ) (as : List α) : σ := as.foldl step s

@[simp] theorem run_nil (s : σ) : run step s [] = s := rfl

@[simp] theorem run_cons (s : σ) (a : α) (as : List α) :
    run step s (a :: as) = run step (step s a) as := rfl

theorem run_append (s : σ) (as bs : List α) :
    run step s (as ++ bs) = run step (run step s as) bs :=
  List.foldl_append

/-- Every step of the run from `s` is taken in a state where its action meets `good`. -/
def Meets (good : σ → α → Prop) : σ → List α → Prop
  | _, [] => True
  | s, a :: as => good s a ∧ Meets good (step s a) as

instance Meets.decidable (good : σ → α → Prop) [∀ s a, Decidable (good s a)] :
    ∀ s as, Decidable (Meets step good s as)
  | _, [] => inferInstanceAs (Decidable True)
  | s, a :: as => @instDecidableAnd _ _ _ (Meets.decidable good (step s a) as)

variable {step}

theorem Meets.append_left {good : σ → α → Prop} {s : σ} {as bs : List α}
    (h : Meets step good s (as ++ bs)) : Meets step good s as := by
  induction as generalizing s with
  | nil => trivial
  | cons a as ih => exact ⟨h.1, ih h.2⟩

theorem Meets.append_right {good : σ → α → Prop} {s : σ} {as bs : List α}
    (h : Meets step good s (as ++ bs)) : Meets step good (run step s as) bs := by
  induction as generalizing s with
  | nil => exact h
  | cons a as ih => exact ih h.2

/-- Every step of a run meets the condition when it holds of the state each prefix leads to
and the action that follows. -/
theorem meets_iff {good : σ → α → Prop} {s : σ} {as : List α} :
    Meets step good s as ↔
      ∀ before a after, as = before ++ a :: after → good (run step s before) a := by
  induction as generalizing s with
  | nil => exact ⟨fun _ before a after h => by simp at h, fun _ => trivial⟩
  | cons a as ih =>
    constructor
    · rintro ⟨ha, htail⟩ (_ | ⟨b, before⟩) c after h
      · obtain ⟨rfl, -⟩ := List.cons.inj h
        exact ha
      · obtain ⟨rfl, rfl⟩ := List.cons.inj h
        exact ih.1 htail before c after rfl
    · intro h
      refine ⟨h [] a as rfl, ih.2 fun before c after heq => ?_⟩
      rw [heq] at h
      exact h (a :: before) c after rfl

/-- The invariant rule: what holds at the start and is preserved by every step
that meets the condition holds at the end. -/
theorem invariant {good : σ → α → Prop} {P : σ → Prop} {s : σ} {as : List α}
    (hstep : ∀ s a, P s → good s a → P (step s a)) (h : Meets step good s as) (hs : P s) :
    P (run step s as) := by
  induction as generalizing s with
  | nil => exact hs
  | cons a as ih => exact ih h.2 (hstep s a hs h.1)

/-- The invariant rule without a condition. -/
theorem always {P : σ → Prop} (hstep : ∀ s a, P s → P (step s a)) {s : σ} (as : List α)
    (hs : P s) : P (run step s as) := by
  induction as generalizing s with
  | nil => exact hs
  | cons a as ih => exact ih (hstep s a hs)

/-- The relation rule: a preorder that relates each step's two states relates
the two ends of the run. -/
theorem relation {good : σ → α → Prop} {R : σ → σ → Prop} {s : σ} {as : List α}
    (hrefl : ∀ s, R s s) (htrans : ∀ s t u, R s t → R t u → R s u)
    (hstep : ∀ s a, good s a → R s (step s a)) (h : Meets step good s as) :
    R s (run step s as) := by
  induction as generalizing s with
  | nil => exact hrefl s
  | cons a as ih => exact htrans _ _ _ (hstep s a h.1) (ih h.2)

end Runs
end OpenFoamAgent
