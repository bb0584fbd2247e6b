/-
# Matches inside a longer text

A pattern without anchors and without lookaround matches inside a longer text wherever it matched
before (`run_within`). So a search finds such a pattern exactly where it occurs
(`search_isSome_iff`), and a text that holds an occurrence passes it on (`Occurs.within`).
-/
import OpenFoamAgent.Python.RegexSpans
import OpenFoamAgent.Python.RegexTokens

namespace OpenFoamAgent
namespace Python
namespace Pattern

/-- The pattern looks at nothing but the characters it reads. -/
def plain : Pattern → Bool
  | one _ | empty => true
  | seq p q | or p q => p.plain && q.plain
  | star p | group _ p => p.plain
  | atStart | atEnd | notBehind _ | notAhead _ => false

theorem self_mem_repeated (step : Cursor → List Cursor) (n : ℕ) (s : Cursor) :
    s ∈ repeated step n s := by
  cases n with
  | zero => exact List.mem_singleton_self s
  | succ n => exact List.mem_append_right _ (List.mem_singleton_self s)

theorem repeated_within {step : Cursor → List Cursor} {t : Text}
    (hstep : ∀ {s s' u : Cursor}, s' ∈ step s → u.ahead = s.ahead ++ t →
      ∃ u' ∈ step u, u'.ahead = s'.ahead ++ t)
    {n m : ℕ} (hnm : n ≤ m) {s s' u : Cursor} (h : s' ∈ repeated step n s)
    (hu : u.ahead = s.ahead ++ t) : ∃ u' ∈ repeated step m u, u'.ahead = s'.ahead ++ t := by
  induction n generalizing m s u with
  | zero =>
    obtain rfl := List.mem_singleton.1 h
    exact ⟨u, self_mem_repeated step m u, hu⟩
  | succ n ih =>
    obtain ⟨m, rfl⟩ : ∃ k, m = k + 1 := ⟨m - 1, by omega⟩
    rcases List.mem_append.1 h with h | h
    · obtain ⟨v, hv, hs'⟩ := List.mem_flatMap.1 h
      obtain ⟨hv, hlt⟩ := List.mem_filter.1 hv
      obtain ⟨v', hv', hahead⟩ := hstep hv hu
      obtain ⟨u', hu', hend⟩ := ih (Nat.le_of_succ_le_succ hnm) hs' hahead
      have hlt' : v'.ahead.length < u.ahead.length := by
        have hlt := of_decide_eq_true hlt
        rw [hahead, hu, List.length_append, List.length_append]
        omega
      exact ⟨u', List.mem_append_left _ (List.mem_flatMap.2
        ⟨v', List.mem_filter.2 ⟨hv', decide_eq_true hlt'⟩, hu'⟩), hend⟩
    · obtain rfl := List.mem_singleton.1 h
      exact ⟨u, self_mem_repeated step (m + 1) u, hu⟩

/-- A plain pattern matches in front of more text, behind any character. -/
theorem run_within {p : Pattern} (hp : p.plain = true) {s s' u : Cursor} {t : Text}
    (h : s' ∈ p.run s) (hu : u.ahead = s.ahead ++ t) :
    ∃ u' ∈ p.run u, u'.ahead = s'.ahead ++ t := by
  induction p generalizing s s' u with
  | one accepts =>
    unfold run at h ⊢
    cases hs : s.ahead with
    | nil =>
      rw [hs] at h
      cases h
    | cons c cs =>
      rw [hs] at h
      rw [hu, hs]
      dsimp only [List.cons_append] at h ⊢
      split_ifs at h ⊢
      · obtain rfl := List.mem_singleton.1 h
        exact ⟨_, List.mem_singleton_self _, rfl⟩
      · cases h
  | empty =>
    obtain rfl := List.mem_singleton.1 h
    exact ⟨u, List.mem_singleton_self u, hu⟩
  | seq p q ihp ihq =>
    obtain ⟨hp, hq⟩ := Bool.and_eq_true_iff.1 hp
    obtain ⟨v, hv, hs'⟩ := List.mem_flatMap.1 h
    obtain ⟨v', hv', hahead⟩ := ihp hp hv hu
    obtain ⟨u', hu', hend⟩ := ihq hq hs' hahead
    exact ⟨u', List.mem_flatMap.2 ⟨v', hv', hu'⟩, hend⟩
  | or p q ihp ihq =>
    obtain ⟨hp, hq⟩ := Bool.and_eq_true_iff.1 hp
    rcases List.mem_append.1 h with h | h
    · obtain ⟨u', hu', hend⟩ := ihp hp h hu
      exact ⟨u', List.mem_append_left _ hu', hend⟩
    · obtain ⟨u', hu', hend⟩ := ihq hq h hu
      exact ⟨u', List.mem_append_right _ hu', hend⟩
  | star p ih =>
    refine repeated_within (fun h hu => ih hp h hu) ?_ h hu
    rw [hu, List.length_append]
    exact Nat.le_add_right _ _
  | group name p ih =>
    obtain ⟨v, hv, rfl⟩ := List.mem_map.1 h
    obtain ⟨v', hv', hahead⟩ := ih hp hv hu
    exact ⟨_, List.mem_map_of_mem hv', hahead⟩
  | atStart | atEnd | notBehind | notAhead => cases hp

/-- Some part of the text is matched. -/
def Occurs (p : Pattern) (text : Text) : Prop :=
  ∃ before rest, text = before ++ rest ∧ ∃ s, s ∈ p.run { ahead := rest }

variable {p : Pattern}

theorem Occurs.within (hp : p.plain = true) {text : Text} (h : p.Occurs text) (a b : Text) :
    p.Occurs (a ++ text ++ b) := by
  obtain ⟨before, rest, rfl, s, hs⟩ := h
  obtain ⟨s', hs', -⟩ := run_within hp hs (u := { ahead := rest ++ b }) rfl
  refine ⟨a ++ before, rest ++ b, ?_, s', hs'⟩
  simp only [List.append_assoc]

theorem searchFrom_isSome (hp : p.plain = true) (behind : Option Char) (text : Text) :
    (p.searchFrom behind text).isSome ↔ p.Occurs text := by
  -- Behind a plain pattern any character may stand.
  have hhere : ∀ (behind : Option Char) (rest : Text),
      (p.run { behind, ahead := rest }).head? = none → ∀ s, s ∉ p.run { ahead := rest } := by
    intro behind rest hnone s hs
    obtain ⟨s', hs', -⟩ :=
      run_within hp hs (u := { behind, ahead := rest }) (List.append_nil _).symm
    rw [List.head?_eq_none_iff.1 hnone] at hs'
    cases hs'
  have hthere : ∀ (behind : Option Char) (rest : Text) (s : Cursor),
      (p.run { behind, ahead := rest }).head? = some s → p.Occurs rest := by
    intro behind rest s hs
    obtain ⟨s', hs', -⟩ := run_within hp (List.mem_of_mem_head? hs) (u := { ahead := rest })
      (List.append_nil _).symm
    exact ⟨[], rest, rfl, s', hs'⟩
  induction text generalizing behind with
  | nil =>
    rw [searchFrom]
    constructor
    · intro h
      obtain ⟨s, hs⟩ := Option.isSome_iff_exists.1 h
      exact hthere behind [] s hs
    · rintro ⟨before, rest, hnil, s, hs⟩
      obtain ⟨rfl, rfl⟩ := List.append_eq_nil_iff.1 hnil.symm
      by_contra hnone
      exact hhere behind [] (Option.not_isSome_iff_eq_none.1 hnone) s hs
  | cons c cs ih =>
    rw [searchFrom]
    cases hrun : (p.run { behind, ahead := c :: cs }).head? with
    | some s => exact iff_of_true rfl (hthere behind _ s hrun)
    | none =>
      dsimp only
      refine (ih (some c)).trans ?_
      constructor
      · rintro ⟨before, rest, rfl, s, hs⟩
        exact ⟨c :: before, rest, rfl, s, hs⟩
      · rintro ⟨before, rest, htext, s, hs⟩
        cases before with
        | nil =>
          obtain rfl : c :: cs = rest := htext
          exact absurd hs (hhere behind _ hrun s)
        | cons d before =>
          obtain ⟨-, rfl⟩ := List.cons.inj htext
          exact ⟨before, rest, rfl, s, hs⟩

/-- **A search finds a plain pattern exactly where it occurs.** -/
theorem search_isSome_iff (hp : p.plain = true) (text : Text) :
    (p.search text).isSome ↔ p.Occurs text := searchFrom_isSome hp none text

/-! ### Literal texts -/

theorem eat_map_beq {cs t rest : Text} (h : eat (cs.map fun a c => c == a) t = some rest) :
    t = cs ++ rest := by
  induction cs generalizing t with
  | nil => exact Option.some.inj h
  | cons a cs ih =>
    cases t with
    | nil => cases h
    | cons c t =>
      rw [List.map_cons, eat] at h
      split_ifs at h with hc
      rw [eq_of_beq hc, ih h]
      rfl

/-- A literal text reads itself. -/
theorem run_exactly {w : String} {s s' : Cursor} (h : s' ∈ (exactly w).run s) :
    s.ahead = w.toList ++ s'.ahead := by
  rw [exactly_eq] at h
  obtain ⟨hnone, hsome⟩ := run_ones (exactClasses w) s
  cases heat : eat (exactClasses w) s.ahead with
  | none =>
    rw [hnone heat] at h
    cases h
  | some rest =>
    obtain ⟨m, hrun, hahead, -⟩ := hsome rest heat
    rw [hrun] at h
    obtain rfl := List.mem_singleton.1 h
    rw [hahead]
    exact eat_map_beq heat

end Pattern
end Python
end OpenFoamAgent
