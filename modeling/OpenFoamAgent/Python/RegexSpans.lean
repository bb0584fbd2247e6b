/-
# Where matches stand

The text that a pattern reads at a position is the text between that position and the one
behind the match (`run_reads`), and the matches of `finditer` stand one behind the other:
the next one starts where the one before it ended, or later (`pairwise_findAll`).
-/
import OpenFoamAgent.Python.RegexLines

namespace OpenFoamAgent
namespace Python

namespace Pattern

/-- A class of the pattern accepts the character. -/
def accepts (c : Char) : Pattern → Bool
  | one accepts => accepts c
  | seq p q | or p q => p.accepts c || q.accepts c
  | star p | group _ p => p.accepts c
  | empty | atStart | atEnd | notBehind _ | notAhead _ => false

/-- The way from a position to a later one over characters of some classes. -/
def Reads (accepts : Char → Bool) (s s' : Cursor) : Prop :=
  ∃ read, s.ahead = read ++ s'.ahead ∧ ∀ c ∈ read, accepts c = true

theorem Reads.refl (accepts : Char → Bool) (s : Cursor) : Reads accepts s s := ⟨[], rfl, by simp⟩

theorem Reads.trans {accepts : Char → Bool} {s t u : Cursor} (h : Reads accepts s t)
    (h' : Reads accepts t u) : Reads accepts s u := by
  obtain ⟨r, hr, hacc⟩ := h
  obtain ⟨r', hr', hacc'⟩ := h'
  refine ⟨r ++ r', by rw [hr, hr', List.append_assoc], fun c hc => ?_⟩
  exact (List.mem_append.1 hc).elim (hacc c) (hacc' c)

theorem Reads.mono {accepts accepts' : Char → Bool} (himp : ∀ c, accepts c = true → accepts' c = true)
    {s t : Cursor} (h : Reads accepts s t) : Reads accepts' s t := by
  obtain ⟨r, hr, hacc⟩ := h
  exact ⟨r, hr, fun c hc => himp c (hacc c hc)⟩

theorem Reads.suffix {accepts : Char → Bool} {s t : Cursor} (h : Reads accepts s t) :
    t.ahead <:+ s.ahead := by
  obtain ⟨r, hr, -⟩ := h
  exact ⟨r, hr.symm⟩

theorem repeated_reads {accepts : Char → Bool} {step : Cursor → List Cursor}
    (hstep : ∀ s, ∀ s' ∈ step s, Reads accepts s s') {n : ℕ} {s s' : Cursor}
    (h : s' ∈ repeated step n s) : Reads accepts s s' := by
  induction n generalizing s with
  | zero =>
    obtain rfl := List.mem_singleton.1 h
    exact .refl _ _
  | succ n ih =>
    rcases List.mem_append.1 h with h | h
    · obtain ⟨t, ht, hs'⟩ := List.mem_flatMap.1 h
      exact (hstep s t (List.mem_filter.1 ht).1).trans (ih hs')
    · obtain rfl := List.mem_singleton.1 h
      exact .refl _ _

/-- **A match reads characters that the pattern accepts.** -/
theorem run_reads {p : Pattern} {s s' : Cursor} (h : s' ∈ p.run s) :
    Reads (fun c => p.accepts c) s s' := by
  induction p generalizing s s' with
  | one a =>
    rw [run] at h
    cases hahead : s.ahead with
    | nil => simp [hahead] at h
    | cons c cs =>
      rw [hahead] at h
      dsimp only at h
      by_cases hc : a c = true
      · rw [if_pos hc] at h
        obtain rfl := List.mem_singleton.1 h
        refine ⟨[c], hahead, fun d hd => ?_⟩
        rw [List.mem_singleton.1 hd]
        exact hc
      · rw [if_neg hc] at h
        cases h
  | empty =>
    obtain rfl := List.mem_singleton.1 h
    exact .refl _ _
  | seq p q ihp ihq =>
    obtain ⟨t, ht, hs'⟩ := List.mem_flatMap.1 h
    refine ((ihp ht).mono fun c hc => ?_).trans ((ihq hs').mono fun c hc => ?_)
    · rw [accepts, hc, Bool.true_or]
    · rw [accepts, hc, Bool.or_true]
  | or p q ihp ihq =>
    rcases List.mem_append.1 h with h | h
    · refine (ihp h).mono fun c hc => ?_
      rw [accepts, hc, Bool.true_or]
    · refine (ihq h).mono fun c hc => ?_
      rw [accepts, hc, Bool.or_true]
  | star p ih => exact repeated_reads (fun s s' hs' => ih hs') h
  | group name p ih =>
    obtain ⟨t, ht, rfl⟩ := List.mem_map.1 h
    have hread := ih ht
    exact hread
  | atStart | atEnd | notBehind | notAhead =>
    unfold run at h
    split_ifs at h
    all_goals first
      | (obtain rfl := List.mem_singleton.1 h; exact .refl _ _)
      | cases h

/-- A match of a pattern that starts somewhere in a text. -/
def MatchIn (p : Pattern) (text : Text) (s m : Cursor) : Prop :=
  s.ahead <:+ text ∧ s.groups = [] ∧ m ∈ p.run s

theorem exists_of_searchFrom {p : Pattern} {behind : Option Char} {text : Text} {m : Cursor}
    (h : p.searchFrom behind text = some m) : ∃ s, p.MatchIn text s m := by
  induction text generalizing behind with
  | nil => exact ⟨_, List.suffix_rfl, rfl, List.mem_of_mem_head? h⟩
  | cons c cs ih =>
    rw [searchFrom] at h
    cases hrun : (p.run { behind, ahead := c :: cs }).head? with
    | some s =>
      rw [hrun] at h
      obtain rfl := Option.some.inj h
      exact ⟨_, List.suffix_rfl, rfl, List.mem_of_mem_head? hrun⟩
    | none =>
      rw [hrun] at h
      obtain ⟨s, hs, hmatch⟩ := ih h
      exact ⟨s, hs.trans (List.suffix_cons c cs), hmatch⟩

theorem exists_of_mem_findAllFrom {p : Pattern} {n : ℕ} {behind : Option Char} {text : Text}
    {m : Cursor} (h : m ∈ p.findAllFrom n behind text) : ∃ s, p.MatchIn text s m := by
  induction n generalizing behind text with
  | zero => cases h
  | succ n ih =>
    rw [findAllFrom] at h
    cases hsearch : p.searchFrom behind text with
    | none => simp [hsearch] at h
    | some t =>
      rw [hsearch] at h
      rcases List.mem_cons.1 h with rfl | h
      · exact exists_of_searchFrom hsearch
      · obtain ⟨s, hs, hmatch⟩ := ih h
        obtain ⟨u, hu, -, hrun⟩ := exists_of_searchFrom hsearch
        exact ⟨s, hs.trans ((run_reads hrun).suffix.trans hu), hmatch⟩

theorem exists_of_mem_findAll {p : Pattern} {text : Text} {m : Cursor} (h : m ∈ p.findAll text) :
    ∃ s, p.MatchIn text s m :=
  exists_of_mem_findAllFrom h

/-- **Matches do not overlap.** -/
theorem pairwise_findAll (p : Pattern) (text : Text) :
    (p.findAll text).Pairwise fun m m' => ∃ s, p.MatchIn m.ahead s m' := by
  have hfrom : ∀ (n : ℕ) (behind : Option Char) (text : Text),
      (p.findAllFrom n behind text).Pairwise fun m m' => ∃ s, p.MatchIn m.ahead s m' := by
    intro n
    induction n with
    | zero => exact fun _ _ => .nil
    | succ n ih =>
      intro behind text
      rw [findAllFrom]
      cases hsearch : p.searchFrom behind text with
      | none => exact .nil
      | some t => exact .cons (fun m' hm' => exists_of_mem_findAllFrom hm') (ih _ _)
  exact hfrom _ _ _

end Pattern

end Python
end OpenFoamAgent
