/-
# Matches in the parts of a text

A pattern that neither accepts a separator nor asks for one around it matches
between the separators: the matches in a text of several parts are those of its
parts, one part behind the other (`findAll_intercalate`).

The proof follows the engine: what stands behind a separator changes no way to
match in front of it (`run_append`), and a separator in front of a position is as
good as the start of the text (`run_forget`).
-/
import OpenFoamAgent.Python.Regex

namespace OpenFoamAgent
namespace Python

namespace Pattern

/-- The pattern neither accepts the character nor asks for it around a match. -/
def avoids (c : Char) : Pattern → Bool
  | one accepts | notBehind accepts | notAhead accepts => !accepts c
  | empty => true
  | seq p q | or p q => p.avoids c && q.avoids c
  | star p | group _ p => p.avoids c
  | atStart | atEnd => false

/-- Every match of the pattern takes a character. -/
def consumes : Pattern → Bool
  | one _ => true
  | seq p q => p.consumes || q.consumes
  | or p q => p.consumes && q.consumes
  | group _ p => p.consumes
  | _ => false

/-! ### The ways to match -/

/-- The same position in front of more text. -/
def extend (t : Text) (s : Cursor) : Cursor := { s with ahead := s.ahead ++ t }

theorem repeated_length {step : Cursor → List Cursor} {n : ℕ} {s s' : Cursor}
    (h : s' ∈ repeated step n s) : s'.ahead.length ≤ s.ahead.length := by
  induction n generalizing s with
  | zero =>
    obtain rfl := List.mem_singleton.1 h
    exact le_rfl
  | succ n ih =>
    rcases List.mem_append.1 h with h | h
    · obtain ⟨t, ht, hs'⟩ := List.mem_flatMap.1 h
      have hlt := of_decide_eq_true (List.mem_filter.1 ht).2
      exact (ih hs').trans hlt.le
    · obtain rfl := List.mem_singleton.1 h
      exact le_rfl

/-- No way to match goes back. -/
theorem run_length {p : Pattern} {s s' : Cursor} (h : s' ∈ p.run s) :
    s'.ahead.length ≤ s.ahead.length := by
  induction p generalizing s s' with
  | one accepts =>
    unfold run at h
    split at h
    · cases h
    · rename_i c cs hahead
      split_ifs at h
      · obtain rfl := List.mem_singleton.1 h
        rw [hahead]
        exact Nat.le_succ _
      · cases h
  | empty =>
    obtain rfl := List.mem_singleton.1 h
    exact le_rfl
  | seq p q ihp ihq =>
    obtain ⟨t, ht, hs'⟩ := List.mem_flatMap.1 h
    exact (ihq hs').trans (ihp ht)
  | or p q ihp ihq => exact (List.mem_append.1 h).elim ihp ihq
  | star p ih => exact repeated_length h
  | group name p ih =>
    obtain ⟨t, ht, rfl⟩ := List.mem_map.1 h
    have hle := ih ht
    exact hle
  | atStart | atEnd | notBehind | notAhead =>
    unfold run at h
    split_ifs at h
    all_goals first
      | (obtain rfl := List.mem_singleton.1 h; exact le_rfl)
      | cases h

theorem run_length_lt {p : Pattern} (hp : p.consumes = true) {s s' : Cursor} (h : s' ∈ p.run s) :
    s'.ahead.length < s.ahead.length := by
  induction p generalizing s s' with
  | one accepts =>
    unfold run at h
    split at h
    · cases h
    · rename_i c cs hahead
      split_ifs at h
      · obtain rfl := List.mem_singleton.1 h
        rw [hahead]
        exact Nat.lt_succ_self _
      · cases h
  | seq p q ihp ihq =>
    obtain ⟨t, ht, hs'⟩ := List.mem_flatMap.1 h
    rcases Bool.or_eq_true_iff.1 hp with hp | hq
    · exact (run_length hs').trans_lt (ihp hp ht)
    · exact (ihq hq hs').trans_le (run_length ht)
  | or p q ihp ihq =>
    obtain ⟨hp, hq⟩ := Bool.and_eq_true_iff.1 hp
    exact (List.mem_append.1 h).elim (ihp hp) (ihq hq)
  | group name p ih =>
    obtain ⟨t, ht, rfl⟩ := List.mem_map.1 h
    have hlt := ih hp ht
    exact hlt
  | empty | star | atStart | atEnd | notBehind | notAhead => cases hp

/-- Turns that are left over change nothing. -/
theorem repeated_fuel {step : Cursor → List Cursor} {n m : ℕ} {s : Cursor}
    (hn : s.ahead.length ≤ n) (hm : s.ahead.length ≤ m) :
    repeated step n s = repeated step m s := by
  induction n generalizing m s with
  | zero =>
    cases m with
    | zero => rfl
    | succ m =>
      have hnone : ((step s).filter (·.ahead.length < s.ahead.length)) = [] :=
        List.filter_eq_nil_iff.2 fun t _ => by simp [Nat.le_zero.1 hn]
      rw [repeated, repeated, hnone]
      rfl
  | succ n ih =>
    cases m with
    | zero =>
      have hnone : ((step s).filter (·.ahead.length < s.ahead.length)) = [] :=
        List.filter_eq_nil_iff.2 fun t _ => by simp [Nat.le_zero.1 hm]
      rw [repeated, repeated, hnone]
      rfl
    | succ m =>
      rw [repeated, repeated]
      congr 1
      refine List.flatMap_congr fun t ht => ih ?_ ?_
      all_goals
        have hlt := of_decide_eq_true (List.mem_filter.1 ht).2
        omega

theorem repeated_extend {step : Cursor → List Cursor} {t : Text}
    (h : ∀ s, step (extend t s) = (step s).map (extend t)) (n : ℕ) (s : Cursor) :
    repeated step n (extend t s) = (repeated step n s).map (extend t) := by
  induction n generalizing s with
  | zero => rfl
  | succ n ih =>
    have hfilter : (step (extend t s)).filter (·.ahead.length < (extend t s).ahead.length) =
        ((step s).filter (·.ahead.length < s.ahead.length)).map (extend t) := by
      rw [h, List.filter_map]
      congr 1
      refine List.filter_congr fun s' _ => ?_
      simp [extend]
    rw [repeated, repeated, hfilter, List.flatMap_map, List.map_append, List.map_flatMap]
    simp only [ih]
    rfl

/-- What stands behind a separator changes no way to match in front of it. -/
theorem run_append {c : Char} {p : Pattern} (hp : p.avoids c = true) (rest : Text) (s : Cursor) :
    p.run (extend (c :: rest) s) = (p.run s).map (extend (c :: rest)) := by
  induction p generalizing s with
  | one accepts =>
    have hc : accepts c = false := by simpa [avoids] using hp
    obtain ⟨behind, ahead, groups⟩ := s
    cases ahead with
    | nil => simp [run, extend, hc]
    | cons d ds =>
      by_cases hd : accepts d = true <;> simp [run, extend, hd]
  | empty => rfl
  | seq p q ihp ihq =>
    obtain ⟨hp, hq⟩ := Bool.and_eq_true_iff.1 hp
    rw [run, run, ihp hp, List.flatMap_map, List.map_flatMap]
    exact List.flatMap_congr fun s' _ => ihq hq s'
  | or p q ihp ihq =>
    obtain ⟨hp, hq⟩ := Bool.and_eq_true_iff.1 hp
    rw [run, run, ihp hp, ihq hq, List.map_append]
  | star p ih =>
    have hfuel : repeated p.run s.ahead.length s =
        repeated p.run (extend (c :: rest) s).ahead.length s :=
      repeated_fuel le_rfl (by simp [extend])
    rw [run, run, hfuel, ← repeated_extend (ih hp)]
  | group name p ih =>
    simp only [run, ih hp, List.map_map]
    refine List.map_congr_left fun s' hs' => ?_
    have hread : (extend (c :: rest) s).read (extend (c :: rest) s') = s.read s' := by
      unfold Cursor.read extend
      have hlength : (s.ahead ++ c :: rest).length - (s'.ahead ++ c :: rest).length =
          s.ahead.length - s'.ahead.length := by
        simp only [List.length_append]
        omega
      rw [hlength, List.take_append_of_le_length (Nat.sub_le _ _)]
    simpa [extend] using hread
  | atStart | atEnd => cases hp
  | notBehind accepts =>
    by_cases h : s.behind.any accepts = true <;> simp [run, extend, h]
  | notAhead accepts =>
    have hc : accepts c = false := by simpa [avoids] using hp
    obtain ⟨behind, ahead, groups⟩ := s
    cases ahead with
    | nil => simp [run, extend, hc]
    | cons d ds =>
      by_cases hd : accepts d = true <;> simp [run, extend, hd]

/-- The same position at the start of the text, when a separator stands in front of it. -/
def forget (c : Char) (s : Cursor) : Cursor :=
  { s with behind := if s.behind = some c then none else s.behind }

theorem repeated_forget {c : Char} {step : Cursor → List Cursor}
    (h : ∀ s, step (forget c s) = (step s).map (forget c)) (n : ℕ) (s : Cursor) :
    repeated step n (forget c s) = (repeated step n s).map (forget c) := by
  induction n generalizing s with
  | zero => rfl
  | succ n ih =>
    have hfilter : (step (forget c s)).filter (·.ahead.length < (forget c s).ahead.length) =
        ((step s).filter (·.ahead.length < s.ahead.length)).map (forget c) := by
      rw [h, List.filter_map]
      rfl
    rw [repeated, repeated, hfilter, List.flatMap_map, List.map_append, List.map_flatMap]
    simp only [ih]
    rfl

/-- A separator in front of a position is as good as the start of the text. -/
theorem run_forget {c : Char} {p : Pattern} (hp : p.avoids c = true) (s : Cursor) :
    p.run (forget c s) = (p.run s).map (forget c) := by
  induction p generalizing s with
  | one accepts =>
    have hc : accepts c = false := by simpa [avoids] using hp
    obtain ⟨behind, ahead, groups⟩ := s
    cases ahead with
    | nil => rfl
    | cons d ds =>
      by_cases hd : accepts d = true
      · have hne : d ≠ c := by
          rintro rfl
          rw [hd] at hc
          cases hc
        simp [run, forget, hd, hne]
      · simp [run, forget, hd]
  | empty => rfl
  | seq p q ihp ihq =>
    obtain ⟨hp, hq⟩ := Bool.and_eq_true_iff.1 hp
    rw [run, run, ihp hp, List.flatMap_map, List.map_flatMap]
    exact List.flatMap_congr fun s' _ => ihq hq s'
  | or p q ihp ihq =>
    obtain ⟨hp, hq⟩ := Bool.and_eq_true_iff.1 hp
    rw [run, run, ihp hp, ihq hq, List.map_append]
  | star p ih => exact repeated_forget (ih hp) s.ahead.length s
  | group name p ih =>
    simp only [run, ih hp, List.map_map]
    rfl
  | atStart | atEnd => cases hp
  | notBehind accepts =>
    have hc : accepts c = false := by simpa [avoids] using hp
    have hbehind : (forget c s).behind.any accepts = s.behind.any accepts := by
      unfold forget
      dsimp only
      split_ifs with h
      · simp [h, hc]
      · rfl
    by_cases h : s.behind.any accepts = true <;> simp [run, hbehind, h]
  | notAhead accepts =>
    by_cases h : s.ahead.head?.any accepts = true <;> simp [run, forget, h]

/-! ### Searches -/

theorem searchFrom_length {p : Pattern} (hp : p.consumes = true) {behind : Option Char} {t : Text}
    {s : Cursor} (h : p.searchFrom behind t = some s) : s.ahead.length < t.length := by
  induction t generalizing behind with
  | nil => exact run_length_lt hp (List.mem_of_head? h)
  | cons c cs ih =>
    rw [searchFrom] at h
    split at h
    · rename_i s' hs'
      obtain rfl := Option.some.inj h
      exact run_length_lt hp (List.mem_of_head? hs')
    · exact (ih h).trans (Nat.lt_succ_self _)

/-- A search finds the first match in front of the separator, or goes on behind it. -/
theorem searchFrom_append {c : Char} {p : Pattern} (hp : p.avoids c = true) (rest : Text)
    (behind : Option Char) (t : Text) :
    p.searchFrom behind (t ++ c :: rest) =
      match p.searchFrom behind t with
      | some s => some (extend (c :: rest) s)
      | none => p.searchFrom (some c) rest := by
  have hrun : ∀ behind (t : Text), (p.run { behind, ahead := t ++ c :: rest }).head? =
      (p.run { behind, ahead := t }).head?.map (extend (c :: rest)) := fun behind t => by
    rw [← List.head?_map, ← run_append hp]
    rfl
  induction t generalizing behind with
  | nil =>
    have hhead := hrun behind []
    rw [List.nil_append] at hhead ⊢
    rw [searchFrom, searchFrom, hhead]
    cases (p.run { behind, ahead := [] }).head? <;> rfl
  | cons d ds ih =>
    have hhead := hrun behind (d :: ds)
    rw [List.cons_append] at hhead ⊢
    rw [searchFrom, searchFrom, hhead]
    cases (p.run { behind, ahead := d :: ds }).head? with
    | some s => rfl
    | none => exact ih (some d)

theorem searchFrom_forget {c : Char} {p : Pattern} (hp : p.avoids c = true) (t : Text) :
    (p.searchFrom none t).map (forget c) = (p.searchFrom (some c) t).map (forget c) := by
  have hrun : ∀ t : Text, (p.run { behind := none, ahead := t }).head? =
      (p.run { behind := some c, ahead := t }).head?.map (forget c) := fun t => by
    rw [← List.head?_map, ← run_forget hp]
    simp [forget]
  have hidem : ∀ s, forget c (forget c s) = forget c s := fun s => by
    unfold forget
    dsimp only
    split_ifs <;> simp_all
  cases t with
  | nil =>
    rw [searchFrom, searchFrom, hrun, Option.map_map]
    congr 1
    funext s
    exact hidem s
  | cons d ds =>
    rw [searchFrom, searchFrom, hrun]
    cases (p.run { behind := some c, ahead := d :: ds }).head? with
    | some s => exact congrArg some (hidem s)
    | none => rfl

/-! ### All matches -/

theorem findAllFrom_fuel {p : Pattern} (hp : p.consumes = true) {n m : ℕ} {behind : Option Char}
    {t : Text} (hn : t.length ≤ n) (hm : t.length ≤ m) :
    p.findAllFrom n behind t = p.findAllFrom m behind t := by
  induction n generalizing m behind t with
  | zero =>
    obtain rfl := List.length_eq_zero_iff.1 (Nat.le_zero.1 hn)
    cases m with
    | zero => rfl
    | succ m =>
      rw [findAllFrom, findAllFrom]
      cases h : p.searchFrom behind [] with
      | none => rfl
      | some s => exact absurd (searchFrom_length hp h) (Nat.not_lt_zero _)
  | succ n ih =>
    cases m with
    | zero =>
      obtain rfl := List.length_eq_zero_iff.1 (Nat.le_zero.1 hm)
      rw [findAllFrom, findAllFrom]
      cases h : p.searchFrom behind [] with
      | none => rfl
      | some s => exact absurd (searchFrom_length hp h) (Nat.not_lt_zero _)
    | succ m =>
      rw [findAllFrom, findAllFrom]
      cases h : p.searchFrom behind t with
      | none => rfl
      | some s =>
        have hlt := searchFrom_length hp h
        exact congrArg (s :: ·) (ih (by omega) (by omega))

/-- What the matches capture, behind a separator and at the start of the text. -/
theorem findAllFrom_forget {c : Char} {p : Pattern} (hp : p.avoids c = true) (n : ℕ)
    (behind : Option Char) (t : Text) :
    (p.findAllFrom n (if behind = some c then none else behind) t).map Cursor.groups =
      (p.findAllFrom n behind t).map Cursor.groups := by
  induction n generalizing behind t with
  | zero => rfl
  | succ n ih =>
    split_ifs with hbehind
    · subst hbehind
      have hsearch := searchFrom_forget hp t
      rw [findAllFrom, findAllFrom]
      cases h : p.searchFrom none t with
      | none =>
        rw [h, Option.map_none, eq_comm, Option.map_eq_none_iff] at hsearch
        rw [hsearch]
      | some s =>
        rw [h, Option.map_some, eq_comm] at hsearch
        obtain ⟨s', hs', hforget⟩ := Option.map_eq_some_iff.1 hsearch
        have hbehind : (if s'.behind = some c then none else s'.behind) =
            if s.behind = some c then none else s.behind := congrArg Cursor.behind hforget
        have hahead : (forget c s').ahead = (forget c s).ahead := congrArg Cursor.ahead hforget
        have hgroups : (forget c s').groups = (forget c s).groups := congrArg Cursor.groups hforget
        dsimp only [forget] at hahead hgroups
        rw [hs', List.map_cons, List.map_cons, hgroups, hahead, ← ih s.behind, ← ih s'.behind,
          hbehind]
    · rfl

theorem findAllFrom_append {c : Char} {p : Pattern} (havoids : p.avoids c = true)
    (hconsumes : p.consumes = true) (rest : Text) {n : ℕ} {behind : Option Char} {t : Text}
    (hn : (t ++ c :: rest).length ≤ n) :
    (p.findAllFrom n behind (t ++ c :: rest)).map Cursor.groups =
      (p.findAllFrom t.length behind t).map Cursor.groups ++
        (p.findAll rest).map Cursor.groups := by
  induction n generalizing behind t with
  | zero => simp at hn
  | succ n ih =>
    have hfuel : p.findAllFrom t.length behind t = p.findAllFrom (t.length + 1) behind t :=
      findAllFrom_fuel hconsumes le_rfl (Nat.le_succ _)
    rw [hfuel, findAllFrom, findAllFrom, searchFrom_append havoids]
    simp only [List.length_append, List.length_cons] at hn ih
    cases h : p.searchFrom behind t with
    | some s =>
      have hlt := searchFrom_length hconsumes h
      have hrest := @ih s.behind s.ahead (by omega)
      rw [findAllFrom_fuel hconsumes (m := t.length) le_rfl hlt.le] at hrest
      exact congrArg (s.groups :: ·) hrest
    | none =>
      have hbehind : (p.findAllFrom rest.length none rest).map Cursor.groups =
          (p.findAllFrom rest.length (some c) rest).map Cursor.groups := by
        have hforget := findAllFrom_forget havoids rest.length (some c) rest
        rwa [if_pos rfl] at hforget
      rw [findAll, hbehind, findAllFrom_fuel hconsumes (m := n + 1) le_rfl (by omega), findAllFrom]
      rfl

/-- The matches in the parts of a text. -/
theorem findAll_intercalate {c : Char} {p : Pattern} (havoids : p.avoids c = true)
    (hconsumes : p.consumes = true) (parts : List Text) :
    (p.findAll (List.intercalate [c] parts)).map Cursor.groups =
      parts.flatMap fun t => (p.findAll t).map Cursor.groups := by
  induction parts with
  | nil => rfl
  | cons t parts ih =>
    cases parts with
    | nil => simp
    | cons t' parts =>
      rw [List.intercalate_cons_cons, List.flatMap_cons, ← ih, List.append_assoc,
        List.singleton_append]
      exact findAllFrom_append havoids hconsumes _ le_rfl

end Pattern

end Python
end OpenFoamAgent
