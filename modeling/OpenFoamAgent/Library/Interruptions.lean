/-
# Computations that may be interrupted

A computation that changes a state step by step and is not rolled back: the
states behind its steps, in order, and its result. An interruption leaves one of
these states. `Crashes C Q d t` says of a computation from `d` that `C` holds
wherever it may be interrupted, and `Q` where it returns.
-/
import Mathlib.Data.List.Basic

namespace OpenFoamAgent

variable {σ ε α : Type}

/-- The states behind the steps of a computation, and how it ended. -/
structure Steps (σ ε α : Type) where
  states : List σ
  result : Except ε α

namespace Steps

/-- An exception. -/
def raised (e : ε) : Steps σ ε α := ⟨[], .error e⟩

/-- A result. -/
def returned (a : α) : Steps σ ε α := ⟨[], .ok a⟩

/-- A step in front of the others. -/
def after (s : σ) (t : Steps σ ε α) : Steps σ ε α := ⟨s :: t.states, t.result⟩

/-- The state that a computation from `d` ends in. -/
def last (d : σ) (t : Steps σ ε α) : σ := t.states.getLastD d

/-- A computation from `d`, and then another from where it ended. -/
def andThen {β : Type} (d : σ) (t : Steps σ ε α) (f : σ → α → Steps σ ε β) : Steps σ ε β :=
  match t.result with
  | .error e => ⟨t.states, .error e⟩
  | .ok a => ⟨t.states ++ (f (t.last d) a).states, (f (t.last d) a).result⟩

theorem last_append {β : Type} (d : σ) (t : Steps σ ε α) (u : Steps σ ε β) :
    (⟨t.states ++ u.states, u.result⟩ : Steps σ ε β).last d = u.last (t.last d) := by
  unfold last
  induction t.states generalizing d with
  | nil => rfl
  | cons s ss ih => rw [List.cons_append, List.getLastD_cons, List.getLastD_cons, ih]

theorem result_andThen {β : Type} {d : σ} {t : Steps σ ε α} {f : σ → α → Steps σ ε β} {b : β} :
    (t.andThen d f).result = .ok b ↔
      ∃ a, t.result = .ok a ∧ (f (t.last d) a).result = .ok b := by
  unfold andThen
  rcases t.result with e | a
  · exact iff_of_false nofun fun ⟨_, h, _⟩ => nomatch h
  · exact ⟨fun h => ⟨a, rfl, h⟩, fun ⟨_, ha, h⟩ => Except.ok.inj ha ▸ h⟩

theorem last_andThen {β : Type} {d : σ} {t : Steps σ ε α} {f : σ → α → Steps σ ε β} {a : α}
    (h : t.result = .ok a) :
    (t.andThen d f).last d = (f (t.last d) a).last (t.last d) := by
  unfold andThen
  rw [h]
  exact last_append d t _

theorem last_after (s d : σ) (t : Steps σ ε α) : (t.after s).last d = t.last s :=
  List.getLastD_cons ..

theorem andThen_assoc {β γ : Type} (d : σ) (t : Steps σ ε α) (f : σ → α → Steps σ ε β)
    (g : σ → β → Steps σ ε γ) :
    (t.andThen d f).andThen d g = t.andThen d fun s a => (f s a).andThen s g := by
  rcases ht : t.result with e | a
  · simp only [andThen, ht]
  · rcases hf : (f (t.last d) a).result with e | b
    · simp only [andThen, ht, hf]
    · have hlast := last_andThen (d := d) (f := f) ht
      simp only [andThen, ht, hf] at hlast ⊢
      rw [hlast, List.append_assoc]

/-- `C` holds behind every step, and `Q` where the computation returns. -/
structure Crashes (C : σ → Prop) (Q : σ → α → Prop) (d : σ) (t : Steps σ ε α) : Prop where
  interrupted : ∀ s ∈ t.states, C s
  returns : ∀ a, t.result = .ok a → Q (t.last d) a

namespace Crashes

variable {C C' : σ → Prop} {Q Q' : σ → α → Prop} {d s : σ} {t : Steps σ ε α}

theorem raised (e : ε) : Crashes C Q d (raised e) := ⟨nofun, nofun⟩

theorem returned {a : α} (h : Q d a) : Crashes C Q d (returned a : Steps σ ε α) :=
  ⟨nofun, fun _ heq => Except.ok.inj heq ▸ h⟩

theorem after (hs : C s) (h : Crashes C Q s t) : Crashes C Q d (t.after s) where
  interrupted := List.forall_mem_cons.2 ⟨hs, h.interrupted⟩
  returns a ha := by
    rw [last_after]
    exact h.returns a ha

/-- The two parts of a computation keep the same property at their interruptions. -/
theorem andThen {β : Type} {R : σ → β → Prop} {f : σ → α → Steps σ ε β} (h : Crashes C Q d t)
    (hf : ∀ s a, Q s a → Crashes C R s (f s a)) : Crashes C R d (t.andThen d f) := by
  unfold Steps.andThen
  split
  · exact ⟨h.interrupted, nofun⟩
  · rename_i a ha
    obtain ⟨hinterrupted, hreturns⟩ := hf _ a (h.returns a ha)
    refine ⟨fun s hs => (List.mem_append.1 hs).elim (h.interrupted s) (hinterrupted s), ?_⟩
    intro b hb
    rw [last_append]
    exact hreturns b hb

/-- What holds at the start and wherever the computation may be interrupted holds where it ends. -/
theorem last (h : Crashes C Q d t) (hd : C d) : C (t.last d) := by
  unfold Steps.last
  rcases hstates : t.states.getLast? with _ | s
  · rw [List.getLastD_eq_getLast?, hstates]
    exact hd
  · rw [List.getLastD_eq_getLast?, hstates]
    exact h.interrupted s (List.mem_of_getLast? hstates)

theorem mono (h : Crashes C Q d t) (hC : ∀ s, C s → C' s) (hQ : ∀ s a, Q s a → Q' s a) :
    Crashes C' Q' d t :=
  ⟨fun s hs => hC s (h.interrupted s hs), fun a ha => hQ _ a (h.returns a ha)⟩

end Crashes

/-! ### Completion -/

/-- The computation from `d` returns, and `Q` holds where it does. -/
def Completes (Q : σ → α → Prop) (d : σ) (t : Steps σ ε α) : Prop :=
  ∃ a, t.result = .ok a ∧ Q (t.last d) a

namespace Completes

variable {Q Q' : σ → α → Prop} {d s : σ} {t : Steps σ ε α}

theorem returned {a : α} (h : Q d a) : Completes Q d (returned a : Steps σ ε α) := ⟨a, rfl, h⟩

theorem after (h : Completes Q s t) : Completes Q d (t.after s) := by
  obtain ⟨a, hresult, ha⟩ := h
  exact ⟨a, hresult, (last_after s d t).symm ▸ ha⟩

theorem andThen {β : Type} {R : σ → β → Prop} {f : σ → α → Steps σ ε β} (h : Completes Q d t)
    (hf : ∀ s a, Q s a → Completes R s (f s a)) : Completes R d (t.andThen d f) := by
  obtain ⟨a, hresult, ha⟩ := h
  obtain ⟨b, hb, hR⟩ := hf _ a ha
  unfold Completes Steps.andThen
  rw [hresult]
  exact ⟨b, hb, by rw [last_append]; exact hR⟩

/-- Where a first part returns, an exception behind it is one of the whole. -/
theorem andThen_error {β : Type} {f : σ → α → Steps σ ε β} {e : ε} (h : Completes Q d t)
    (hf : ∀ s a, Q s a → (f s a).result = .error e) : (t.andThen d f).result = .error e := by
  obtain ⟨a, hresult, ha⟩ := h
  unfold Steps.andThen
  rw [hresult]
  exact hf _ a ha

/-- What holds wherever the computation returns holds where it does return. -/
theorem mono (h : Completes Q d t) (hQ : ∀ s a, Q s a → Q' s a) : Completes Q' d t :=
  h.imp fun _ ha => ⟨ha.1, hQ _ _ ha.2⟩

end Completes

end Steps

end OpenFoamAgent
