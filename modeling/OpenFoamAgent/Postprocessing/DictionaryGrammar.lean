/-
# The grammar of saved dictionaries

What `Tokens.dictionary` of `postprocessing/native_fields.py` accepts: entries that are a key
with a value up to its semicolon, or a key with a dictionary in braces and a semicolon or none
behind it. A value has balanced parentheses and brackets, and a semicolon in it only between
these. The reader is the function of this grammar (`dictionaryFrom_eq_ok_iff`), so that what
it reads can be printed and read again.
-/
import OpenFoamAgent.Library.Brackets
import OpenFoamAgent.Postprocessing.NativeFields

namespace OpenFoamAgent
namespace Postprocessing

open Brackets Python

/-! ### Values -/

/-- The brackets of a value. -/
def valueBrackets : Set (Text × Text) := {(['('], [')']), (['['], [']'])}

/-- A token that is no bracket and no brace; a semicolon only inside of brackets. -/
def StandsAlone (inside : Bool) (token : Text) : Prop :=
  token ∉ [['('], [')'], ['['], [']'], ['{'], ['}']] ∧ (token = [';'] → inside = true)

/-- A value with its brackets balanced. -/
abbrev BalancedValue (value : List Text) : Prop := Balanced valueBrackets StandsAlone false value

/-- A token before those of a value that is read. -/
def withToken (token : Text) (r : List Text × List Text) : List Text × List Text :=
  (token :: r.1, r.2)

theorem mem_valueBrackets {o c : Text} :
    (o, c) ∈ valueBrackets ↔ (o = ['('] ∧ c = [')']) ∨ (o = ['['] ∧ c = [']']) := by
  simp [valueBrackets]

theorem entryTokens_end (rest : List Text) : entryTokens [] ([';'] :: rest) = .ok ([], rest) := by
  rw [entryTokens, if_pos ⟨rfl, rfl⟩]

theorem entryTokens_open {o c : Text} (h : (o, c) ∈ valueBrackets) (stack rest : List Text) :
    entryTokens stack (o :: rest) = (entryTokens (o :: stack) rest).map (withToken o) := by
  rcases mem_valueBrackets.1 h with ⟨rfl, -⟩ | ⟨rfl, -⟩
  · rw [entryTokens, if_neg (by simp)]
    rfl
  · rw [entryTokens, if_neg (by simp)]
    rfl

theorem entryTokens_close {o c : Text} (h : (o, c) ∈ valueBrackets) (stack rest : List Text) :
    entryTokens (o :: stack) (c :: rest) = (entryTokens stack rest).map (withToken c) := by
  rcases mem_valueBrackets.1 h with ⟨rfl, rfl⟩ | ⟨rfl, rfl⟩
  · rw [entryTokens, if_neg (by simp)]
    rfl
  · rw [entryTokens, if_neg (by simp)]
    rfl

theorem entryTokens_token {stack : List Text} {token : Text}
    (h : StandsAlone (!stack.isEmpty) token) (rest : List Text) :
    entryTokens stack (token :: rest) = (entryTokens stack rest).map (withToken token) := by
  obtain ⟨hbracket, hsemicolon⟩ := h
  rw [entryTokens, if_neg (by
    rintro ⟨htoken, rfl⟩
    exact absurd (hsemicolon htoken) (by decide))]
  simp only [List.mem_cons, List.not_mem_nil, or_false, not_or] at hbracket
  obtain ⟨h1, h2, h3, h4, h5, h6⟩ := hbracket
  split
  all_goals first | contradiction | rfl

/-- What one token does to the value that is read. -/
theorem entryTokens_cases {stack rest : List Text} {token : Text} {r : List Text × List Text}
    (h : entryTokens stack (token :: rest) = .ok r) :
    (token = [';'] ∧ stack = [] ∧ r = ([], rest)) ∨
    (StandsAlone (!stack.isEmpty) token ∧
      ∃ r', entryTokens stack rest = .ok r' ∧ r = withToken token r') ∨
    (∃ c, (token, c) ∈ valueBrackets ∧
      ∃ r', entryTokens (token :: stack) rest = .ok r' ∧ r = withToken token r') ∨
    ∃ o stack', stack = o :: stack' ∧ (o, token) ∈ valueBrackets ∧
      ∃ r', entryTokens stack' rest = .ok r' ∧ r = withToken token r' := by
  have hmap : ∀ {stack' : List Text}, (entryTokens stack' rest).map (withToken token) = .ok r →
      ∃ r', entryTokens stack' rest = .ok r' ∧ r = withToken token r' := by
    intro stack' h'
    cases hrest : entryTokens stack' rest with
    | error e => rw [hrest] at h'; cases h'
    | ok r' => rw [hrest] at h'; exact ⟨r', rfl, (Except.ok.inj h').symm⟩
  rw [entryTokens] at h
  split_ifs at h with hend
  · exact .inl ⟨hend.1, hend.2, (Except.ok.inj h).symm⟩
  · dsimp only at h
    split at h
    · exact .inr (.inr (.inl ⟨[')'], mem_valueBrackets.2 (.inl ⟨rfl, rfl⟩), hmap h⟩))
    · exact .inr (.inr (.inl ⟨[']'], mem_valueBrackets.2 (.inr ⟨rfl, rfl⟩), hmap h⟩))
    · exact .inr (.inr (.inr ⟨_, _, rfl, mem_valueBrackets.2 (.inl ⟨rfl, rfl⟩), hmap h⟩))
    · exact .inr (.inr (.inr ⟨_, _, rfl, mem_valueBrackets.2 (.inr ⟨rfl, rfl⟩), hmap h⟩))
    · cases h
    · cases h
    · cases h
    · cases h
    · rename_i h1 h2 h3 h4 h5 h6 h7 h8
      refine .inr (.inl ⟨⟨?_, ?_⟩, hmap h⟩)
      · simp only [List.mem_cons, List.not_mem_nil, or_false, not_or]
        exact ⟨h1, h3, h2, h4, h5, h6⟩
      · intro htoken
        cases stack with
        | nil => exact absurd ⟨htoken, rfl⟩ hend
        | cons o stack => rfl

/-- A balanced word is read to its end, whatever comes behind it. -/
theorem entryTokens_append {inside : Bool} {value : List Text}
    (h : Balanced valueBrackets StandsAlone inside value) {stack : List Text}
    (hstack : inside = !stack.isEmpty) (rest : List Text) :
    entryTokens stack (value ++ rest) =
      (entryTokens stack rest).map fun r => (value ++ r.1, r.2) := by
  induction h generalizing stack rest with
  | nil =>
    rw [List.nil_append]
    cases entryTokens stack rest <;> rfl
  | token halone _ ih =>
    rw [List.cons_append, entryTokens_token (hstack ▸ halone), ih hstack rest]
    cases entryTokens stack rest <;> rfl
  | group hpair _ _ ih ih' =>
    rw [List.append_assoc, List.cons_append, List.cons_append, entryTokens_open hpair, ih rfl,
      entryTokens_close hpair, ih' hstack rest]
    cases entryTokens stack rest with
    | error e => rfl
    | ok r =>
      simp only [Except.map, withToken, List.append_assoc, List.cons_append]

/-- **The value of an entry**: up to the first semicolon with which all brackets are closed. -/
theorem entryTokens_eq_ok_iff {stack tokens value rest : List Text} :
    entryTokens stack tokens = .ok (value, rest) ↔
      tokens = value ++ [';'] :: rest ∧ Closes valueBrackets StandsAlone stack value := by
  constructor
  · intro h
    induction tokens generalizing stack value with
    | nil =>
      rw [entryTokens] at h
      cases h
    | cons token tokens ih =>
      rcases entryTokens_cases h with ⟨rfl, rfl, hr⟩ | ⟨halone, ⟨value', rest'⟩, hread, hr⟩ |
        ⟨c, hpair, ⟨value', rest'⟩, hread, hr⟩ | ⟨o, stack, rfl, hpair, ⟨value', rest'⟩, hread, hr⟩
      · obtain ⟨rfl, rfl⟩ := Prod.mk.inj hr
        exact ⟨rfl, Balanced.nil⟩
      all_goals
        obtain ⟨rfl, rfl⟩ := Prod.mk.inj hr
        obtain ⟨rfl, hcloses⟩ := ih hread
      · exact ⟨rfl, hcloses.token halone⟩
      · exact ⟨rfl, hcloses.opened⟩
      · exact ⟨rfl, hcloses.closed hpair⟩
  · rintro ⟨rfl, h⟩
    induction stack generalizing value with
    | nil =>
      rw [entryTokens_append h rfl, entryTokens_end]
      simp only [Except.map, List.append_nil]
    | cons o stack ih =>
      obtain ⟨c, us, vs, hpair, rfl, hus, hvs⟩ := h
      rw [List.append_assoc, entryTokens_append hus rfl, List.cons_append,
        entryTokens_close hpair, ih hvs]
      rfl

/-! ### Entries -/

/-- A key as it stands and without the quotes around it. -/
def LiteralKey (token key : Text) : Prop :=
  stripBy (· == '"') token = key ∧ isEntryKey key = true

/-- **The grammar**: the entries that a word of tokens stands for, at a depth. -/
inductive Denotes : ℕ → List Text → List (Text × Entry) → Prop
  | nil {depth : ℕ} : Denotes depth [] []
  | value {depth : ℕ} {token key : Text} {value rest : List Text} {entries : List (Text × Entry)}
      (hkey : LiteralKey token key) (hvalue : BalancedValue value) (hne : value ≠ [])
      (hrest : Denotes depth rest entries) (hnew : key ∉ entries.map Prod.fst) :
      Denotes depth (token :: (value ++ [';'] :: rest)) ((key, .tokens value) :: entries)
  | block {depth : ℕ} {token key : Text} {inner semicolon rest : List Text}
      {block entries : List (Text × Entry)} (hkey : LiteralKey token key) (hdepth : depth + 1 ≤ 12)
      (hinner : Denotes (depth + 1) inner block) (hsemicolon : semicolon = [] ∨ semicolon = [[';']])
      (hrest : Denotes depth rest entries) (hnew : key ∉ entries.map Prod.fst) :
      Denotes depth (token :: ['{'] :: (inner ++ ['}'] :: (semicolon ++ rest)))
        ((key, .block block) :: entries)

/-- The places where a reader stops: the end, and the token that closes. -/
def Stops (closing : Option Text) (rest : List Text) : Prop :=
  ∀ token ∈ rest.head?, closing = some token

theorem LiteralKey.self {token key : Text} (h : LiteralKey token key) : LiteralKey key key :=
  ⟨by rw [← h.1, stripBy_stripBy], h.2⟩

theorem not_literalKey_brace (key : Text) : ¬ LiteralKey ['}'] key := by
  rintro ⟨rfl, h⟩
  exact absurd h (by decide)

theorem not_literalKey_semicolon (key : Text) : ¬ LiteralKey [';'] key := by
  rintro ⟨rfl, h⟩
  exact absurd h (by decide)

theorem head?_ne_of_balancedValue {value : List Text} (h : BalancedValue value) (hne : value ≠ [])
    (rest : List Text) : (value ++ rest).head? ≠ some ['{'] := by
  cases h with
  | nil => exact absurd rfl hne
  | token halone _ =>
    rw [List.cons_append, List.head?_cons, ne_eq, Option.some.injEq]
    rintro rfl
    exact halone.1 (by decide)
  | group hpair _ _ =>
    rw [List.cons_append, List.cons_append, List.head?_cons, ne_eq, Option.some.injEq]
    rintro rfl
    rcases mem_valueBrackets.1 hpair with ⟨h, -⟩ | ⟨h, -⟩ <;> exact absurd h (by decide)

/-- Entries begin with a key. -/
theorem Denotes.head?_literal {depth : ℕ} {read : List Text} {entries : List (Text × Entry)}
    (h : Denotes depth read entries) : ∀ token ∈ read.head?, ∃ key, LiteralKey token key := by
  intro token htoken
  cases h with
  | nil => cases htoken
  | value hkey _ _ _ _ => exact ⟨_, Option.some.inj htoken ▸ hkey⟩
  | block hkey _ _ _ _ _ => exact ⟨_, Option.some.inj htoken ▸ hkey⟩

/-! ### The reader -/

section
variable {closing : Option Text} {fuel depth : ℕ} {result : List (Text × Entry)}

theorem dictionaryFrom_stop {rest : List Text} (h : Stops closing rest) (fuel : ℕ) :
    dictionaryFrom closing fuel depth result rest = .ok (result, rest) := by
  cases fuel with
  | zero => rfl
  | succ fuel =>
    cases rest with
    | nil => rfl
    | cons token rest => rw [dictionaryFrom, if_pos (h token rfl).symm]

theorem dictionaryFrom_value {token key : Text} {value rest rest' : List Text}
    (hclosing : closing ≠ some token) (hkey : LiteralKey token key)
    (hnew : key ∉ result.map Prod.fst) (hbrace : rest.head? ≠ some ['{'])
    (hvalue : entryTokens [] rest = .ok (value, rest')) (hne : value ≠ []) :
    dictionaryFrom closing (fuel + 1) depth result (token :: rest) =
      dictionaryFrom closing fuel depth (result ++ [(key, .tokens value)]) rest' := by
  obtain ⟨rfl, hliteral⟩ := hkey
  rw [dictionaryFrom, if_neg (Ne.symm hclosing)]
  dsimp only
  rw [if_neg (by simp [hliteral, hnew])]
  split
  · exact absurd rfl hbrace
  · rw [hvalue]
    dsimp only
    rw [if_neg hne]

theorem dictionaryFrom_block {token key : Text} {inner : List (Text × Entry)}
    {rest rest' : List Text} (hclosing : closing ≠ some token) (hkey : LiteralKey token key)
    (hnew : key ∉ result.map Prod.fst) (hdepth : depth + 1 ≤ 12)
    (hinner : dictionaryFrom (some ['}']) fuel (depth + 1) [] rest = .ok (inner, ['}'] :: rest')) :
    dictionaryFrom closing (fuel + 1) depth result (token :: ['{'] :: rest) =
      dictionaryFrom closing fuel depth (result ++ [(key, .block inner)])
        (if rest'.head? = some [';'] then rest'.tail else rest') := by
  obtain ⟨rfl, hliteral⟩ := hkey
  rw [dictionaryFrom, if_neg (Ne.symm hclosing)]
  dsimp only
  rw [if_neg (by simp [hliteral, hnew])]
  split
  · rename_i heq
    obtain rfl := (List.cons.inj heq).2
    rw [if_neg (not_lt.2 hdepth), hinner]
    dsimp only
    rw [if_neg (not_not.2 rfl)]
  · rename_i hother
    exact absurd rfl (hother rest)

/-- What a reader does at a token. -/
theorem dictionaryFrom_cases {token : Text} {rest : List Text}
    {r : List (Text × Entry) × List Text}
    (h : dictionaryFrom closing (fuel + 1) depth result (token :: rest) = .ok r) :
    (closing = some token ∧ r = (result, token :: rest)) ∨
    (∃ key value rest', LiteralKey token key ∧ key ∉ result.map Prod.fst ∧
      entryTokens [] rest = .ok (value, rest') ∧ value ≠ [] ∧
      dictionaryFrom closing fuel depth (result ++ [(key, .tokens value)]) rest' = .ok r) ∨
    ∃ key inner rest' rest'', rest = ['{'] :: rest' ∧ LiteralKey token key ∧
      key ∉ result.map Prod.fst ∧ depth + 1 ≤ 12 ∧
      dictionaryFrom (some ['}']) fuel (depth + 1) [] rest' = .ok (inner, ['}'] :: rest'') ∧
      dictionaryFrom closing fuel depth (result ++ [(key, .block inner)])
        (if rest''.head? = some [';'] then rest''.tail else rest'') = .ok r := by
  rw [dictionaryFrom] at h
  by_cases hclosing : some token = closing
  · rw [if_pos hclosing] at h
    exact .inl ⟨hclosing.symm, (Except.ok.inj h).symm⟩
  · rw [if_neg hclosing] at h
    dsimp only at h
    by_cases hkey : (!isEntryKey (stripBy (· == '"') token) ||
        decide (stripBy (· == '"') token ∈ result.map Prod.fst)) = true
    · rw [if_pos hkey] at h
      cases h
    rw [if_neg hkey] at h
    rw [Bool.or_eq_true, not_or, Bool.not_eq_true', Bool.not_eq_false, decide_eq_true_iff] at hkey
    obtain ⟨hliteral, hnew⟩ := hkey
    split at h
    · split_ifs at h with hdepth
      split at h
      · cases h
      · cases h
      · rename_i rest' _ inner token' rest'' hinner
        by_cases hbrace : token' ≠ ['}']
        · rw [if_pos hbrace] at h
          cases h
        rw [if_neg hbrace] at h
        rw [not_not.1 hbrace] at hinner
        exact .inr (.inr ⟨_, inner, rest', rest'', rfl, ⟨rfl, hliteral⟩, hnew, not_lt.1 hdepth,
          hinner, h⟩)
    · split at h
      · cases h
      · rename_i value rest' hvalue
        split_ifs at h with hne
        exact .inr (.inl ⟨_, value, rest', ⟨rfl, hliteral⟩, hnew, hvalue, hne, h⟩)

end

/-- A closing token is none or a brace, and is no key. -/
theorem ne_of_literalKey {closing : Option Text} (hclosing : closing = none ∨ closing = some ['}'])
    {token key : Text} (h : LiteralKey token key) : closing ≠ some token := by
  rcases hclosing with rfl | rfl
  · exact (Option.some_ne_none token).symm
  · intro heq
    obtain rfl := Option.some.inj heq
    exact not_literalKey_brace key h

/-- A reader with a turn for each token reads entries of the grammar. -/
theorem denotes_of_dictionaryFrom {closing : Option Text} {fuel depth : ℕ}
    {result entries : List (Text × Entry)} {tokens rest : List Text} (hfuel : tokens.length ≤ fuel)
    (h : dictionaryFrom closing fuel depth result tokens = .ok (entries, rest)) :
    ∃ read new, tokens = read ++ rest ∧ entries = result ++ new ∧ Denotes depth read new ∧
      (∀ key ∈ new.map Prod.fst, key ∉ result.map Prod.fst) ∧ Stops closing rest := by
  induction fuel generalizing closing depth result entries tokens rest with
  | zero =>
    obtain rfl := List.eq_nil_of_length_eq_zero (Nat.le_zero.1 hfuel)
    rw [dictionaryFrom, Except.ok.injEq, Prod.mk.injEq] at h
    obtain ⟨rfl, rfl⟩ := h
    exact ⟨[], [], rfl, (List.append_nil _).symm, .nil, by simp, by simp [Stops]⟩
  | succ fuel ih =>
    cases tokens with
    | nil =>
      rw [dictionaryFrom_stop (by simp [Stops]), Except.ok.injEq, Prod.mk.injEq] at h
      obtain ⟨rfl, rfl⟩ := h
      exact ⟨[], [], rfl, (List.append_nil _).symm, .nil, by simp, by simp [Stops]⟩
    | cons token tokens =>
      rw [List.length_cons, Nat.add_le_add_iff_right] at hfuel
      rcases dictionaryFrom_cases h with ⟨rfl, hr⟩ |
        ⟨key, value, tokens', hkey, hnew, hvalue, hne, hread⟩ |
        ⟨key, inner, tokens', behind, rfl, hkey, hnew, hdepth, hinner, hread⟩
      · obtain ⟨rfl, rfl⟩ := Prod.mk.inj hr
        refine ⟨[], [], rfl, (List.append_nil _).symm, .nil, by simp, ?_⟩
        rintro token' htoken'
        exact htoken'
      · obtain ⟨rfl, hbalanced⟩ := entryTokens_eq_ok_iff.1 hvalue
        rw [List.length_append, List.length_cons] at hfuel
        obtain ⟨read, new, rfl, rfl, hdenotes, hfresh, hstops⟩ := ih (by omega) hread
        simp only [List.map_append, List.mem_append, not_or, List.map_cons, List.map_nil,
          List.mem_singleton] at hfresh
        refine ⟨token :: (value ++ [';'] :: read), (key, .tokens value) :: new, ?_, ?_,
          .value hkey hbalanced hne hdenotes fun hmem => (hfresh key hmem).2 rfl, ?_, hstops⟩
        · rw [List.cons_append, List.append_assoc, List.cons_append]
        · rw [List.append_assoc, List.singleton_append]
        · rintro key' hkey'
          rcases List.mem_cons.1 hkey' with rfl | hmem
          · exact hnew
          · exact (hfresh key' hmem).1
      · rw [List.length_cons] at hfuel
        obtain ⟨read', _, rfl, rfl, hdenotes', -, -⟩ := ih (by omega) hinner
        rw [List.length_append, List.length_cons] at hfuel
        obtain ⟨semicolon, left, hsemicolon, rfl, hleft⟩ : ∃ semicolon left,
            (semicolon = [] ∨ semicolon = [[';']]) ∧ behind = semicolon ++ left ∧
            (if behind.head? = some [';'] then behind.tail else behind) = left := by
          split_ifs with hhead
          · obtain ⟨tail, rfl⟩ := List.head?_eq_some_iff.1 hhead
            exact ⟨[[';']], tail, .inr rfl, rfl, rfl⟩
          · exact ⟨[], behind, .inl rfl, rfl, rfl⟩
        rw [hleft] at hread
        rw [List.length_append] at hfuel
        obtain ⟨read, new, rfl, rfl, hdenotes, hfresh, hstops⟩ := ih (by omega) hread
        simp only [List.map_append, List.mem_append, not_or, List.map_cons, List.map_nil,
          List.mem_singleton] at hfresh
        refine ⟨token :: ['{'] :: (read' ++ ['}'] :: (semicolon ++ read)),
          (key, .block inner) :: new, ?_, ?_,
          .block hkey hdepth hdenotes' hsemicolon hdenotes fun hmem => (hfresh key hmem).2 rfl,
          ?_, hstops⟩
        · simp only [List.cons_append, List.append_assoc]
        · rw [List.append_assoc, List.singleton_append]
        · rintro key' hkey'
          rcases List.mem_cons.1 hkey' with rfl | hmem
          · exact hnew
          · exact (hfresh key' hmem).1

/-- A reader with a turn for each token reads the entries of the grammar up to where it
stops. -/
theorem dictionaryFrom_of_denotes {depth : ℕ} {read : List Text} {new : List (Text × Entry)}
    (h : Denotes depth read new) {closing : Option Text} {fuel : ℕ}
    {result : List (Text × Entry)} {rest : List Text}
    (hclosing : closing = none ∨ closing = some ['}']) (hfuel : (read ++ rest).length ≤ fuel)
    (hfresh : ∀ key ∈ new.map Prod.fst, key ∉ result.map Prod.fst) (hstops : Stops closing rest) :
    dictionaryFrom closing fuel depth result (read ++ rest) = .ok (result ++ new, rest) := by
  induction h generalizing closing fuel result rest with
  | nil => rw [List.nil_append, List.append_nil, dictionaryFrom_stop hstops]
  | @value depth token key value read new hkey hvalue hne _ hnew ih =>
    obtain ⟨fuel, rfl⟩ : ∃ n, fuel = n + 1 := ⟨fuel - 1, by
      rw [List.cons_append, List.length_cons] at hfuel
      omega⟩
    rw [List.map_cons, List.forall_mem_cons] at hfresh
    rw [List.cons_append, List.append_assoc, List.cons_append] at hfuel ⊢
    rw [List.length_cons, List.length_append, List.length_cons] at hfuel
    rw [dictionaryFrom_value (ne_of_literalKey hclosing hkey) hkey hfresh.1
      (head?_ne_of_balancedValue hvalue hne _) (entryTokens_eq_ok_iff.2 ⟨rfl, hvalue⟩) hne,
      ih hclosing (by omega) ?_ hstops, List.append_assoc, List.singleton_append]
    intro key' hkey'
    rw [List.map_append, List.mem_append, not_or]
    refine ⟨hfresh.2 key' hkey', fun hmem => hnew ?_⟩
    obtain rfl : key' = key := by simpa using hmem
    exact hkey'
  | @block depth token key inner semicolon read block new hkey hdepth _ hsemicolon hrest hnew ih
      ih' =>
    obtain ⟨fuel, rfl⟩ : ∃ n, fuel = n + 1 := ⟨fuel - 1, by
      rw [List.cons_append, List.length_cons] at hfuel
      omega⟩
    rw [List.map_cons, List.forall_mem_cons] at hfresh
    have htokens : token :: ['{'] :: (inner ++ ['}'] :: (semicolon ++ read)) ++ rest =
        token :: ['{'] :: (inner ++ ['}'] :: (semicolon ++ (read ++ rest))) := by
      simp only [List.cons_append, List.append_assoc]
    rw [htokens] at hfuel ⊢
    simp only [List.length_cons, List.length_append] at hfuel
    have hinner : dictionaryFrom (some ['}']) fuel (depth + 1) []
        (inner ++ ['}'] :: (semicolon ++ (read ++ rest))) =
          .ok ([] ++ block, ['}'] :: (semicolon ++ (read ++ rest))) := by
      refine ih (.inr rfl) ?_ (fun _ _ => List.not_mem_nil) fun token' htoken' => htoken'
      simp only [List.length_cons, List.length_append]
      omega
    have hbehind : (if (semicolon ++ (read ++ rest)).head? = some [';']
        then (semicolon ++ (read ++ rest)).tail else semicolon ++ (read ++ rest)) =
          read ++ rest := by
      rcases hsemicolon with rfl | rfl
      · refine if_neg fun hhead => ?_
        rw [List.nil_append] at hhead
        cases read with
        | nil =>
          have hclose := hstops [';'] hhead
          rcases hclosing with rfl | rfl
          · cases hclose
          · exact absurd (Option.some.inj hclose) (by decide)
        | cons token' read =>
          obtain ⟨key', hkey'⟩ := hrest.head?_literal [';'] hhead
          exact not_literalKey_semicolon key' hkey'
      · rfl
    rw [dictionaryFrom_block (ne_of_literalKey hclosing hkey) hkey hfresh.1 hdepth hinner,
      hbehind, List.nil_append, ih' hclosing ?_ ?_ hstops, List.append_assoc,
      List.singleton_append]
    · rw [List.length_append]
      omega
    · intro key' hkey'
      rw [List.map_append, List.mem_append, not_or]
      refine ⟨hfresh.2 key' hkey', fun hmem => hnew ?_⟩
      obtain rfl : key' = key := by simpa using hmem
      exact hkey'

/-! ### Printing -/

mutual

/-- The tokens of an entry behind its key. -/
def printEntry : Entry → List Text
  | .tokens value => value ++ [[';']]
  | .block entries => ['{'] :: (printEntries entries ++ [['}']])

/-- The tokens of a dictionary. -/
def printEntries : List (Text × Entry) → List Text
  | [] => []
  | (key, entry) :: entries => key :: (printEntry entry ++ printEntries entries)

end

/-- What a word denotes is denoted by its print. -/
theorem denotes_printEntries {depth : ℕ} {tokens : List Text} {entries : List (Text × Entry)}
    (h : Denotes depth tokens entries) : Denotes depth (printEntries entries) entries := by
  induction h with
  | nil => exact .nil
  | value hkey hvalue hne _ hnew ih =>
    rw [printEntries, printEntry, List.append_assoc, List.singleton_append]
    exact .value hkey.self hvalue hne ih hnew
  | block hkey hdepth _ _ _ hnew ih ih' =>
    rw [printEntries, printEntry, List.cons_append, List.append_assoc, List.singleton_append]
    exact .block hkey.self hdepth ih (.inl rfl) ih' hnew

/-- `dictionary()`: the entries of all the tokens, with a turn for each at most. -/
def dictionary (tokens : List Text) : Except NativeError (List (Text × Entry) × List Text) :=
  dictionaryFrom none tokens.length 0 [] tokens

/-- More turns change nothing: the reader accepts the words of the grammar, to their end, and
gives what they denote. -/
theorem dictionaryFrom_eq_ok_iff {tokens : List Text} {fuel : ℕ} (hfuel : tokens.length ≤ fuel)
    {entries : List (Text × Entry)} {rest : List Text} :
    dictionaryFrom none fuel 0 [] tokens = .ok (entries, rest) ↔
      rest = [] ∧ Denotes 0 tokens entries := by
  constructor
  · intro h
    obtain ⟨read, new, rfl, rfl, hdenotes, -, hstops⟩ := denotes_of_dictionaryFrom hfuel h
    cases rest with
    | nil => exact ⟨rfl, by rwa [List.append_nil]⟩
    | cons token rest => cases hstops token rfl
  · rintro ⟨rfl, h⟩
    have hread : dictionaryFrom none fuel 0 [] (tokens ++ []) = .ok ([] ++ entries, []) :=
      dictionaryFrom_of_denotes h (.inl rfl) (by rwa [List.append_nil])
        (fun _ _ => List.not_mem_nil) (by simp [Stops])
    rwa [List.append_nil, List.nil_append] at hread

/-- **What `dictionary` accepts and gives**: the words of the grammar and what they denote, with
any number of turns that is at least the number of tokens; and its print is read as itself. -/
theorem dictionary_denotes (tokens : List Text) :
    (∀ fuel, tokens.length ≤ fuel → ∀ entries rest,
      dictionaryFrom none fuel 0 [] tokens = .ok (entries, rest) ↔
        rest = [] ∧ Denotes 0 tokens entries) ∧
    ∀ entries rest, dictionary tokens = .ok (entries, rest) →
      dictionary (printEntries entries) = .ok (entries, []) := by
  refine ⟨fun fuel hfuel entries rest => dictionaryFrom_eq_ok_iff hfuel, ?_⟩
  intro entries rest h
  obtain ⟨rfl, hdenotes⟩ := (dictionaryFrom_eq_ok_iff le_rfl).1 h
  exact (dictionaryFrom_eq_ok_iff le_rfl).2 ⟨rfl, denotes_printEntries hdenotes⟩

/-- A header with a quoted key, and a list with a semicolon in it. -/
def headerAndList : List Text :=
  ["FoamFile", "\x7b", "\x22format\x22", "ascii", ";", "\x7d", ";", "a", "(", "1", ";", ")",
    ";"].map String.toList

theorem dictionary_denotes_headerAndList :
    ∃ entries, Denotes 0 headerAndList entries ∧
      dictionary (printEntries entries) = .ok (entries, []) :=
  ⟨_, (((dictionary_denotes headerAndList).1 13 (by decide) _ _).1 rfl).2,
    (dictionary_denotes headerAndList).2 _ _ rfl⟩

/-- A repeated key, and a bracket left open. -/
example : (dictionary (["a", "1", ";", "a", "2", ";"].map String.toList)).toOption = none ∧
    (dictionary (["a", "(", "1", ";"].map String.toList)).toOption = none := by
  constructor <;> rfl

end Postprocessing
end OpenFoamAgent
