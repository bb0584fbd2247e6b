/-
# Saturation by passes

A list of candidates is gone through again and again. A candidate that needs one of the
marks made so far is selected and makes marks of its own, once for each key, until a pass
selects nothing.

The selection is the least set of candidates that is closed under the marks
(`isLeast_saturate`). As many passes as there are candidates, and one, are enough
(`saturate_stable`), and the set depends on the members of the two lists alone
(`Closed.congr`).
-/
import Mathlib.Data.List.Nodup
import Mathlib.Data.List.Perm.Subperm
import Mathlib.Order.Bounds.Basic

namespace OpenFoamAgent

/-- What candidates of type `α` need and give, as marks of type `β`, and what names them. -/
structure SaturationRules (α β κ : Type) where
  key : α → κ
  needs : α → β → Bool
  gives : α → List β

/-- The variables of the passes. -/
structure Saturation (α β κ : Type) where
  selected : List α := []
  seen : List κ
  marks : List β

namespace Saturation

variable {α β κ : Type} (r : SaturationRules α β κ)

/-- A set of candidates that contains each one needing a mark of the start or of the set. -/
def Closed (candidates : List α) (marks : List β) (s : Set α) : Prop :=
  ∀ a ∈ candidates, ∀ b, (b ∈ marks ∨ ∃ c ∈ s, b ∈ r.gives c) → r.needs a b → a ∈ s

theorem Closed.congr {candidates candidates' : List α} {marks marks' : List β} {s : Set α}
    (hc : ∀ a, a ∈ candidates ↔ a ∈ candidates') (hm : ∀ b, b ∈ marks ↔ b ∈ marks') :
    Closed r candidates marks s ↔ Closed r candidates' marks' s := by
  simp only [Closed, hc, hm]

/-- The candidates reached from the marks of the start. -/
inductive Derived (candidates : List α) (marks : List β) : α → Prop
  | start {a : α} {b : β} (ha : a ∈ candidates) (hb : b ∈ marks) (h : r.needs a b) :
    Derived candidates marks a
  | behind {a c : α} {b : β} (ha : a ∈ candidates) (hc : Derived candidates marks c)
    (hb : b ∈ r.gives c) (h : r.needs a b) : Derived candidates marks a

/-- The candidates reached are the least closed set. -/
theorem isLeast_derived {candidates : List α} {marks : List β} :
    IsLeast {closed | Closed r candidates marks closed} {a | Derived r candidates marks a} := by
  constructor
  · rintro a ha b (hb | ⟨c, hc, hb⟩) h
    · exact .start ha hb h
    · exact .behind ha hc hb h
  · intro closed hclosed a ha
    induction ha with
    | start ha hb h => exact hclosed _ ha _ (.inl hb) h
    | behind ha _ hb h ih => exact hclosed _ ha _ (.inr ⟨_, ih, hb⟩) h

variable [DecidableEq κ]

/-- One candidate of a pass. -/
def visit (s : Saturation α β κ) (a : α) : Saturation α β κ :=
  if r.key a ∈ s.seen then s
  else if s.marks.any (r.needs a) then
    { selected := s.selected ++ [a]
      seen := r.key a :: s.seen
      marks := s.marks ++ r.gives a }
  else s

/-- The passes, until one adds nothing. -/
def saturate (candidates : List α) : ℕ → Saturation α β κ → Saturation α β κ
  | 0, s => s
  | passes + 1, s =>
    let s' := candidates.foldl (visit r) s
    if s'.selected.length = s.selected.length then s' else saturate candidates passes s'

variable {r} {candidates : List α} {s : Saturation α β κ} {a : α}

/-! ### Passes that add nothing -/

theorem visit_eq_or (s : Saturation α β κ) (a : α) :
    visit r s a = s ∨ (visit r s a).selected.length = s.selected.length + 1 := by
  unfold visit
  split_ifs
  · exact .inl rfl
  · exact .inr (by simp)
  · exact .inl rfl

theorem length_le_foldl (candidates : List α) (s : Saturation α β κ) :
    s.selected.length ≤ (candidates.foldl (visit r) s).selected.length := by
  induction candidates generalizing s with
  | nil => exact le_rfl
  | cons a candidates ih =>
    rw [List.foldl_cons]
    refine le_trans ?_ (ih _)
    rcases visit_eq_or (r := r) s a with h | h
    · rw [h]
    · omega

/-- A pass that selects nothing changes nothing. -/
theorem visit_eq_of_length
    (h : (candidates.foldl (visit r) s).selected.length = s.selected.length) :
    ∀ a ∈ candidates, visit r s a = s := by
  induction candidates with
  | nil => exact fun _ ha => absurd ha List.not_mem_nil
  | cons a candidates ih =>
    rw [List.foldl_cons] at h
    have hmono := length_le_foldl (r := r) candidates (visit r s a)
    have hsame : visit r s a = s := (visit_eq_or s a).resolve_right (by omega)
    rw [hsame] at h
    exact List.forall_mem_cons.2 ⟨hsame, ih h⟩

theorem foldl_eq_of_visit (h : ∀ a ∈ candidates, visit r s a = s) :
    candidates.foldl (visit r) s = s := by
  induction candidates with
  | nil => rfl
  | cons a candidates ih =>
    obtain ⟨hhead, htail⟩ := List.forall_mem_cons.1 h
    rw [List.foldl_cons, hhead, ih htail]

/-! ### What the passes keep -/

/-- What holds of the passes over the candidates, started on keys that are seen and on marks. -/
structure Grown (r : SaturationRules α β κ) (candidates : List α) (seen : List κ) (marks : List β)
    (s : Saturation α β κ) : Prop where
  chosen : ∀ a ∈ s.selected, a ∈ candidates
  least : ∀ closed, Closed r candidates marks closed →
    ∀ a ∈ s.selected, ∀ a' ∈ candidates, r.key a' = r.key a → a' ∈ closed
  keys : ∀ k, k ∈ s.seen ↔ k ∈ seen ∨ k ∈ s.selected.map r.key
  made : ∀ b, b ∈ s.marks ↔ b ∈ marks ∨ ∃ a ∈ s.selected, b ∈ r.gives a
  once : (s.selected.map r.key).Nodup
  fresh : ∀ a ∈ s.selected, r.key a ∉ seen

/-- Candidates of one key need and give the same. -/
def Keyed (r : SaturationRules α β κ) (candidates : List α) : Prop :=
  ∀ a ∈ candidates, ∀ a' ∈ candidates, r.key a = r.key a' →
    r.needs a = r.needs a' ∧ r.gives a = r.gives a'

variable {seen : List κ} {marks : List β}

omit [DecidableEq κ] in
theorem Grown.start : Grown r candidates seen marks { seen, marks } where
  chosen := fun _ h => absurd h List.not_mem_nil
  least := fun _ _ _ h => absurd h List.not_mem_nil
  keys := by simp
  made := by simp
  once := List.nodup_nil
  fresh := fun _ h => absurd h List.not_mem_nil

theorem Grown.visit (hkeyed : Keyed r candidates) (h : Grown r candidates seen marks s)
    (ha : a ∈ candidates) : Grown r candidates seen marks (visit r s a) := by
  unfold Saturation.visit
  split_ifs with hseen hneeds
  · exact h
  · obtain ⟨b, hb, hneed⟩ := List.any_eq_true.1 hneeds
    have hnot := fun k => mt (h.keys k).2
    obtain ⟨hfresh, hnew⟩ := not_or.1 (hnot _ hseen)
    refine ⟨?_, fun closed hclosed => ?_, fun k => ?_, fun b => ?_, ?_, ?_⟩
    · simp only [List.forall_mem_append, List.forall_mem_singleton]
      exact ⟨h.chosen, ha⟩
    · simp only [List.forall_mem_append, List.forall_mem_singleton]
      refine ⟨h.least closed hclosed, fun a' ha' hkey => hclosed a' ha' b ?_ ?_⟩
      · refine ((h.made b).1 hb).imp_right fun ⟨c, hc, hgives⟩ => ⟨c, ?_, hgives⟩
        exact h.least closed hclosed c hc c (h.chosen c hc) rfl
      · rw [(hkeyed a' ha' a ha hkey).1]
        exact hneed
    · simp only [List.mem_cons, h.keys, List.map_append, List.map_singleton, List.mem_append]
      tauto
    · simp only [List.mem_append, h.made, List.mem_singleton, or_and_right, exists_or,
        exists_eq_left, or_assoc]
    · rw [List.map_append, List.map_singleton]
      exact List.nodup_append.2 ⟨h.once, List.nodup_singleton _, fun k hk k' hk' heq =>
        hnew (List.mem_singleton.1 hk' ▸ heq ▸ hk)⟩
    · simp only [List.forall_mem_append, List.forall_mem_singleton]
      exact ⟨h.fresh, hfresh⟩
  · exact h

theorem Grown.pass (hkeyed : Keyed r candidates) (h : Grown r candidates seen marks s) :
    Grown r candidates seen marks (candidates.foldl (Saturation.visit r) s) := by
  suffices hall : ∀ rest : List α, (∀ a ∈ rest, a ∈ candidates) → ∀ s,
      Grown r candidates seen marks s →
      Grown r candidates seen marks (rest.foldl (Saturation.visit r) s) from
    hall candidates (fun _ ha => ha) s h
  intro rest
  induction rest with
  | nil => exact fun _ _ h => h
  | cons a rest ih =>
    intro hrest s h
    obtain ⟨ha, hrest⟩ := List.forall_mem_cons.1 hrest
    exact ih hrest _ (h.visit hkeyed ha)

omit [DecidableEq κ] in
/-- No more candidates are selected than there are. -/
theorem Grown.length_le (h : Grown r candidates seen marks s) :
    s.selected.length ≤ candidates.length := by
  have hsub : (s.selected.map r.key).Subperm (candidates.map r.key) :=
    List.subperm_of_subset h.once fun k hk => by
      obtain ⟨a, ha, rfl⟩ := List.mem_map.1 hk
      exact List.mem_map_of_mem (h.chosen a ha)
  simpa using hsub.length_le

theorem Grown.saturate (hkeyed : Keyed r candidates) (h : Grown r candidates seen marks s)
    (passes : ℕ) : Grown r candidates seen marks (saturate r candidates passes s) := by
  induction passes generalizing s with
  | zero => exact h
  | succ passes ih =>
    unfold Saturation.saturate
    dsimp only
    split_ifs
    · exact h.pass hkeyed
    · exact ih (h.pass hkeyed)

/-- **Enough passes.** The last of them adds nothing. -/
theorem saturate_stable (hkeyed : Keyed r candidates) (h : Grown r candidates seen marks s)
    (passes : ℕ) (hpasses : candidates.length < passes + s.selected.length) :
    ∀ a ∈ candidates,
      visit r (saturate r candidates passes s) a = saturate r candidates passes s := by
  induction passes generalizing s with
  | zero => exact absurd h.length_le (by omega)
  | succ passes ih =>
    unfold saturate
    dsimp only
    split_ifs with hlength
    · have hsame := visit_eq_of_length hlength
      rw [foldl_eq_of_visit hsame]
      exact hsame
    · have hmono := length_le_foldl (r := r) candidates s
      exact ih (h.pass hkeyed) (by omega)

/-- More passes than enough end in the same state. -/
theorem saturate_add (hkeyed : Keyed r candidates) (h : Grown r candidates seen marks s)
    (passes : ℕ) (hpasses : candidates.length < passes + s.selected.length) (more : ℕ) :
    saturate r candidates (passes + more) s = saturate r candidates passes s := by
  induction passes generalizing s with
  | zero => exact absurd h.length_le (by omega)
  | succ passes ih =>
    rw [Nat.add_right_comm]
    unfold saturate
    dsimp only
    split_ifs with hlength
    · rfl
    · have hmono := length_le_foldl (r := r) candidates s
      exact ih (h.pass hkeyed) (by omega)

/-- **Saturation.** The candidates whose keys are selected are the least closed set. -/
theorem isLeast_saturate (marks : List β) (hkeyed : Keyed r candidates)
    (hfresh : ∀ a ∈ candidates, r.key a ∉ seen) {passes : ℕ}
    (hpasses : candidates.length < passes) :
    IsLeast {closed | Closed r candidates marks closed} {a | a ∈ candidates ∧
      r.key a ∈ (saturate r candidates passes { seen, marks }).selected.map r.key} := by
  have hstart : Grown r candidates seen marks { seen, marks } := .start
  have h := hstart.saturate hkeyed passes
  have hstable := saturate_stable hkeyed hstart passes (by simpa using hpasses)
  generalize saturate r candidates passes { seen, marks } = s at h hstable ⊢
  constructor
  · intro a ha b hb hneeds
    have hmark : b ∈ s.marks := by
      rw [h.made]
      refine hb.imp_right fun ⟨c, ⟨hc, hkey⟩, hgives⟩ => ?_
      obtain ⟨c', hc', heq⟩ := List.mem_map.1 hkey
      exact ⟨c', hc', (hkeyed c' (h.chosen c' hc') c hc heq).2 ▸ hgives⟩
    by_contra hout
    have hnew : r.key a ∉ s.seen := by
      rw [h.keys, not_or]
      exact ⟨hfresh a ha, fun hkey => hout ⟨ha, hkey⟩⟩
    have hvisit := hstable a ha
    rw [visit, if_neg hnew, if_pos (List.any_eq_true.2 ⟨b, hmark, hneeds⟩)] at hvisit
    have hlength := congrArg (fun t => t.selected.length) hvisit
    simp at hlength
  · rintro closed hclosed a ⟨ha, hkey⟩
    obtain ⟨a', ha', heq⟩ := List.mem_map.1 hkey
    exact h.least closed hclosed a' ha' a ha heq.symm

end Saturation
end OpenFoamAgent
