/-
# Reading JSON

`json.loads`: the scanner of the `json` module, which reads one value at a position and
leaves the text behind it. What `json.dumps` writes is read back as it was
(`loads_dumps`), for values that the language can hold: numbers as they are written
(`isNumber`), and the keys of an object each once.

A lone surrogate, for which there is no character, is read as U+FFFD. The limit of the
language on the nesting of values is left out.
-/
import Mathlib.Tactic.IntervalCases
import OpenFoamAgent.Library.Items
import OpenFoamAgent.Python.Json

namespace OpenFoamAgent
namespace Python
namespace Json

/-! ### Numbers -/

/-- The digits in front of a text, and the rest of it. -/
def takeDigits (t : Text) : Text × Text := (t.takeWhile isAsciiDigit, t.dropWhile isAsciiDigit)

/-- `(?:0|[1-9][0-9]*)` -/
def scanInteger : Text → Option (Text × Text)
  | [] => none
  | c :: t =>
    if c = '0' then some (['0'], t)
    else if isAsciiDigit c then some (c :: (takeDigits t).1, (takeDigits t).2)
    else none

/-- `(\.[0-9]+)?` -/
def scanFraction : Text → Text × Text
  | '.' :: t =>
    if (takeDigits t).1 = [] then ([], '.' :: t)
    else ('.' :: (takeDigits t).1, (takeDigits t).2)
  | t => ([], t)

/-- A sign in front of a text. -/
def takeSign : Text → Text × Text
  | '+' :: t => (['+'], t)
  | '-' :: t => (['-'], t)
  | t => ([], t)

/-- `([eE][-+]?[0-9]+)?` -/
def scanExponent : Text → Text × Text
  | [] => ([], [])
  | e :: t =>
    if e = 'e' ∨ e = 'E' then
      let digits := takeDigits (takeSign t).2
      if digits.1 = [] then ([], e :: t) else (e :: (takeSign t).1 ++ digits.1, digits.2)
    else ([], e :: t)

/-- `-?` -/
def takeMinus : Text → Text × Text
  | '-' :: t => (['-'], t)
  | t => ([], t)

/-- `sys.get_int_max_str_digits()`. -/
def maxIntegerDigits : ℕ := 4300

/-- A number, and the text behind it; an integer of too many digits is refused. -/
def scanNumber (t : Text) : Option (Text × Text) :=
  let minus := takeMinus t
  match scanInteger minus.2 with
  | none => none
  | some integer =>
    let fraction := scanFraction integer.2
    let exponent := scanExponent fraction.2
    if fraction.1 = [] ∧ exponent.1 = [] ∧ maxIntegerDigits < integer.1.length then none
    else some (minus.1 ++ integer.1 ++ fraction.1 ++ exponent.1, exponent.2)

/-! ### Texts -/

/-- The value of a hexadecimal digit. -/
def hexValue (c : Char) : Option ℕ :=
  if isAsciiDigit c then some (c.toNat - 48)
  else if 'a' ≤ c ∧ c ≤ 'f' then some (c.toNat - 87)
  else if 'A' ≤ c ∧ c ≤ 'F' then some (c.toNat - 55)
  else none

/-- Four hexadecimal digits, and the text behind them. -/
def scanHex : Text → Option (ℕ × Text)
  | a :: b :: c :: d :: t => do
    let a ← hexValue a
    let b ← hexValue b
    let c ← hexValue c
    let d ← hexValue d
    return (((a * 16 + b) * 16 + c) * 16 + d, t)
  | _ => none

/-- A character for a code point. -/
def codePoint (n : ℕ) : Char := if n.isValidChar then Char.ofNat n else '\uFFFD'

/-- What stands behind `\u`: a code unit, or a pair of surrogates. -/
def scanUnicode (t : Text) : Option (Char × Text) :=
  match scanHex t with
  | none => none
  | some (high, rest) =>
    if 0xd800 ≤ high ∧ high ≤ 0xdbff then
      match rest with
      | '\\' :: 'u' :: rest' =>
        match scanHex rest' with
        | none => none
        | some (low, rest'') =>
          if 0xdc00 ≤ low ∧ low ≤ 0xdfff then
            some (codePoint (0x10000 + (high - 0xd800) * 0x400 + (low - 0xdc00)), rest'')
          else some (codePoint high, rest)
      | _ => some (codePoint high, rest)
    else some (codePoint high, rest)

/-- What the character behind a backslash stands for. -/
def escaped (c : Char) : Option Char :=
  if c = '"' then some '"'
  else if c = '\\' then some '\\'
  else if c = '/' then some '/'
  else if c = 'b' then some (Char.ofNat 8)
  else if c = 'f' then some (Char.ofNat 12)
  else if c = 'n' then some '\n'
  else if c = 'r' then some '\r'
  else if c = 't' then some '\t'
  else none

/-- One character of a text, written as itself or as an escape. -/
def scanChar : Text → Option (Char × Text)
  | '\\' :: 'u' :: t => scanUnicode t
  | '\\' :: c :: t => (escaped c).map fun c => (c, t)
  | ['\\'] => none
  | c :: t => if 0x20 ≤ c.toNat then some (c, t) else none
  | [] => none

/-- The characters up to the closing quote; there are no more of them than characters. -/
def scanStringFrom : ℕ → Text → Option (Text × Text)
  | 0, _ => none
  | fuel + 1, t =>
    if t.head? = some '"' then some ([], t.tail)
    else
      match scanChar t with
      | none => none
      | some (c, rest) => (scanStringFrom fuel rest).map fun r => (c :: r.1, r.2)

/-- `scanstring`, behind the opening quote. -/
def scanString (t : Text) : Option (Text × Text) := scanStringFrom (t.length + 1) t

/-! ### Values -/

/-- The white space between tokens. -/
def isJsonSpace (c : Char) : Bool := c == ' ' || c == '\t' || c == '\n' || c == '\r'

/-- The text behind white space. -/
def skip (t : Text) : Text := t.dropWhile isJsonSpace

/-- The constants. -/
def constants : List (Text × Json) :=
  [("null".toList, null), ("true".toList, bool true), ("false".toList, bool false),
    ("NaN".toList, number "NaN".toList), ("Infinity".toList, number "Infinity".toList),
    ("-Infinity".toList, number "-Infinity".toList)]

/-- A constant or a number. -/
def scanScalar (t : Text) : Option (Json × Text) :=
  match constants.find? fun e => e.1.isPrefixOf t with
  | some e => some (e.2, t.drop e.1.length)
  | none => (scanNumber t).map fun r => (number r.1, r.2)

/-- `dict(pairs)`. -/
def ofPairs (pairs : List (Text × Json)) : Json :=
  dict (pairs.foldl (fun es e => putItem Prod.fst e es) [])

mutual

/-- `scan_once`, with no more turns than the fuel. -/
def scanValue : ℕ → Text → Option (Json × Text)
  | 0, _ => none
  | fuel + 1, t =>
    match t with
    | '"' :: t => (scanString t).map fun r => (str r.1, r.2)
    | '[' :: t =>
      if (skip t).head? = some ']' then some (list [], (skip t).tail)
      else (scanItems fuel (skip t)).map fun r => (list r.1, r.2)
    | '\x7b' :: t =>
      if (skip t).head? = some '\x7d' then some (dict [], (skip t).tail)
      else (scanEntries fuel (skip t)).map fun r => (ofPairs r.1, r.2)
    | t => scanScalar t

/-- The items of a list from one of them on. -/
def scanItems : ℕ → Text → Option (List Json × Text)
  | 0, _ => none
  | fuel + 1, t =>
    match scanValue fuel t with
    | none => none
    | some (x, rest) =>
      if (skip rest).head? = some ']' then some ([x], (skip rest).tail)
      else if (skip rest).head? = some ',' then
        (scanItems fuel (skip (skip rest).tail)).map fun r => (x :: r.1, r.2)
      else none

/-- The entries of an object from one of them on. -/
def scanEntries : ℕ → Text → Option (List (Text × Json) × Text)
  | 0, _ => none
  | fuel + 1, t =>
    if t.head? = some '"' then
      match scanString t.tail with
      | none => none
      | some (key, rest) =>
        if (skip rest).head? = some ':' then
          match scanValue fuel (skip (skip rest).tail) with
          | none => none
          | some (x, rest) =>
            if (skip rest).head? = some '\x7d' then some ([(key, x)], (skip rest).tail)
            else if (skip rest).head? = some ',' then
              (scanEntries fuel (skip (skip rest).tail)).map fun r => ((key, x) :: r.1, r.2)
            else none
        else none
    else none

end

/-- `json.loads(text)`; `none` where it raises. -/
def loads (text : Text) : Option Json :=
  match scanValue (2 * text.length + 2) (skip text) with
  | some (value, rest) => if skip rest = [] then some value else none
  | none => none

/-- The last value of a key counts; a comma is no end of a list. -/
example :
    (loads "\x7b\"a\": [1, -2.5e+3, \"\\u00e9\"], \"b\": [ ], \"b\": true\x7d".toList).map dumpsSorted =
        some "\x7b\"a\":[1,-2.5e+3,\"é\"],\"b\":true\x7d".toList ∧
      (loads "[1, 2,]".toList).isNone := by
  decide +kernel

/-! ### Equality -/

mutual

/-- `a == b`, of values as they are written. -/
def same : Json → Json → Bool
  | null, null => true
  | bool a, bool b => a == b
  | number a, number b => a == b
  | str a, str b => a == b
  | list xs, list ys => sameItems xs ys
  | dict es, dict fs => sameEntries es fs
  | _, _ => false

def sameItems : List Json → List Json → Bool
  | [], [] => true
  | x :: xs, y :: ys => same x y && sameItems xs ys
  | _, _ => false

def sameEntries : List (Text × Json) → List (Text × Json) → Bool
  | [], [] => true
  | e :: es, f :: fs => e.1 == f.1 && same e.2 f.2 && sameEntries es fs
  | _, _ => false

end

mutual

theorem same_iff : ∀ v w : Json, same v w = true ↔ v = w
  | null, w => by cases w <;> simp [same]
  | bool a, w => by cases w <;> simp [same]
  | number a, w => by cases w <;> simp [same]
  | str a, w => by cases w <;> simp [same]
  | list xs, w => by
    cases w <;> simp [same]
    exact sameItems_iff xs _
  | dict es, w => by
    cases w <;> simp [same]
    exact sameEntries_iff es _

theorem sameItems_iff : ∀ xs ys : List Json, sameItems xs ys = true ↔ xs = ys
  | [], ys => by cases ys <;> simp [sameItems]
  | x :: xs, ys => by
    cases ys with
    | nil => simp [sameItems]
    | cons y ys => simp [sameItems, same_iff x y, sameItems_iff xs ys]

theorem sameEntries_iff : ∀ es fs : List (Text × Json), sameEntries es fs = true ↔ es = fs
  | [], fs => by cases fs <;> simp [sameEntries]
  | e :: es, fs => by
    cases fs with
    | nil => simp [sameEntries]
    | cons f fs =>
      simp [sameEntries, same_iff e.2 f.2, sameEntries_iff es fs, Prod.ext_iff]

end

instance : DecidableEq Json := fun v w => decidable_of_iff (same v w = true) (same_iff v w)

/-! ### Values of the language -/

/-- What a number is written as. -/
def isNumber (t : Text) : Bool :=
  ["NaN", "Infinity", "-Infinity"].any (·.toList = t) || scanNumber t = some (t, [])

/-- `sys.maxsize` -/
def maxSize : ℕ := 2 ^ 63 - 1

mutual

/-- A value that the language can hold. -/
def valid : Json → Bool
  | number t => isNumber t
  | list xs => decide (xs.length ≤ maxSize) && validItems xs
  | dict es => decide ((es.map Prod.fst).Nodup) && validEntries es
  | null => true
  | bool _ => true
  | str _ => true

def validItems : List Json → Bool
  | [] => true
  | x :: xs => valid x && validItems xs

def validEntries : List (Text × Json) → Bool
  | [] => true
  | e :: es => valid e.2 && validEntries es

end

/-! ### Numbers are read back -/

/-- A text that does not go on with a number. -/
def Stops (rest : Text) : Prop :=
  ∀ c ∈ rest.head?, ¬ (isAsciiDigit c ∨ c ∈ ['.', 'e', 'E', '+', '-'])

theorem takeDigits_append {rest : Text} (hrest : Stops rest) (t : Text) :
    takeDigits (t ++ rest) = ((takeDigits t).1, (takeDigits t).2 ++ rest) := by
  induction t with
  | nil =>
    cases rest with
    | nil => rfl
    | cons c cs =>
      have hc : isAsciiDigit c = false := by
        have := hrest c rfl
        rw [not_or] at this
        simpa using this.1
      simp [takeDigits, hc]
  | cons c t ih =>
    obtain ⟨htake, hdrop⟩ := Prod.mk.inj ih
    rw [takeDigits, takeDigits, List.cons_append]
    by_cases hc : isAsciiDigit c = true
    · rw [List.takeWhile_cons_of_pos hc, List.takeWhile_cons_of_pos hc,
        List.dropWhile_cons_of_pos hc, List.dropWhile_cons_of_pos hc, htake, hdrop]
      rfl
    · rw [List.takeWhile_cons_of_neg hc, List.takeWhile_cons_of_neg hc,
        List.dropWhile_cons_of_neg hc, List.dropWhile_cons_of_neg hc]
      rfl

theorem scanFraction_append {rest : Text} (hrest : Stops rest) (t : Text) :
    scanFraction (t ++ rest) = ((scanFraction t).1, (scanFraction t).2 ++ rest) := by
  cases t with
  | nil =>
    cases rest with
    | nil => rfl
    | cons c cs =>
      have hc : c ≠ '.' := fun h => hrest c rfl (.inr (by simp [h]))
      simp [scanFraction, hc]
  | cons c t =>
    by_cases hc : c = '.'
    · subst hc
      rw [List.cons_append, scanFraction, scanFraction, takeDigits_append hrest]
      split_ifs <;> rfl
    · simp [scanFraction, hc]

theorem takeSign_append {rest : Text} (hrest : Stops rest) (t : Text) :
    takeSign (t ++ rest) = ((takeSign t).1, (takeSign t).2 ++ rest) := by
  cases t with
  | nil =>
    cases rest with
    | nil => rfl
    | cons c cs =>
      have hplus : c ≠ '+' := fun h => hrest c rfl (.inr (by simp [h]))
      have hminus : c ≠ '-' := fun h => hrest c rfl (.inr (by simp [h]))
      simp [takeSign, hplus, hminus]
  | cons c t =>
    by_cases hplus : c = '+'
    · subst hplus
      rfl
    · by_cases hminus : c = '-'
      · subst hminus
        rfl
      · simp [takeSign, hplus, hminus]

theorem scanExponent_append {rest : Text} (hrest : Stops rest) (t : Text) :
    scanExponent (t ++ rest) = ((scanExponent t).1, (scanExponent t).2 ++ rest) := by
  cases t with
  | nil =>
    cases rest with
    | nil => rfl
    | cons c cs =>
      have hc : ¬ (c = 'e' ∨ c = 'E') := by
        rintro (h | h)
        · exact hrest c rfl (.inr (by simp [h]))
        · exact hrest c rfl (.inr (by simp [h]))
      rw [List.nil_append, scanExponent.eq_def (c :: cs)]
      dsimp only
      rw [if_neg hc]
      rfl
  | cons c t =>
    rw [List.cons_append, scanExponent, scanExponent, takeSign_append hrest,
      takeDigits_append hrest]
    dsimp only
    split_ifs <;> rfl

/-- **A number is read up to what is no part of it.** -/
theorem scanNumber_append {rest : Text} (hrest : Stops rest) {t : Text}
    (h : scanNumber t = some (t, [])) : scanNumber (t ++ rest) = some (t, rest) := by
  have hminus : ∀ t : Text, t ≠ [] →
      takeMinus (t ++ rest) = ((takeMinus t).1, (takeMinus t).2 ++ rest) := by
    intro t ht
    cases t with
    | nil => exact absurd rfl ht
    | cons c t =>
      by_cases hc : c = '-'
      · subst hc
        rfl
      · simp [takeMinus, hc]
  have hne : t ≠ [] := by
    rintro rfl
    cases h
  have hinteger : ∀ {t : Text} {r : Text × Text}, scanInteger t = some r →
      scanInteger (t ++ rest) = some (r.1, r.2 ++ rest) := by
    intro t r hr
    cases t with
    | nil => cases hr
    | cons c t =>
      rw [List.cons_append, scanInteger]
      rw [scanInteger] at hr
      split_ifs at hr ⊢
      · obtain rfl := Option.some.inj hr
        rfl
      · obtain rfl := Option.some.inj hr
        rw [takeDigits_append hrest]
  rw [scanNumber] at h ⊢
  dsimp only at h ⊢
  rw [hminus t hne]
  cases hscan : scanInteger (takeMinus t).2 with
  | none =>
    rw [hscan] at h
    cases h
  | some integer =>
    rw [hscan] at h
    rw [hinteger hscan]
    dsimp only at h ⊢
    rw [scanFraction_append hrest, scanExponent_append hrest]
    dsimp only
    split_ifs at h ⊢
    obtain ⟨hread, hleft⟩ := Prod.mk.inj (Option.some.inj h)
    rw [hread, hleft]
    rfl

/-- A number starts with a digit, or with a minus and a digit. -/
theorem head_of_scanNumber {t : Text} {r : Text × Text} (h : scanNumber t = some r) :
    ∃ c u, isAsciiDigit c = true ∧ (t = c :: u ∨ t = '-' :: c :: u) := by
  have hinteger : ∀ {t : Text} {r : Text × Text}, scanInteger t = some r →
      ∃ c u, isAsciiDigit c = true ∧ t = c :: u := by
    intro t r hr
    cases t with
    | nil => cases hr
    | cons c t =>
      rw [scanInteger] at hr
      split_ifs at hr with hzero hdigit
      · exact ⟨c, t, by rw [hzero]; rfl, rfl⟩
      · exact ⟨c, t, hdigit, rfl⟩
  rw [scanNumber] at h
  dsimp only at h
  cases hscan : scanInteger (takeMinus t).2 with
  | none =>
    rw [hscan] at h
    cases h
  | some integer =>
    obtain ⟨c, u, hc, heq⟩ := hinteger hscan
    refine ⟨c, u, hc, ?_⟩
    cases t with
    | nil => cases heq
    | cons d t =>
      by_cases hd : d = '-'
      · subst hd
        exact .inr (congrArg _ heq)
      · left
        simpa [takeMinus, hd] using heq

theorem ne_of_isAsciiDigit {c d : Char} (hc : isAsciiDigit c = true) (hd : isAsciiDigit d = false) :
    c ≠ d := by
  rintro rfl
  rw [hc] at hd
  cases hd

/-- No number starts with a constant. -/
theorem find?_constants_eq_none {t : Text} {r : Text × Text} (h : scanNumber t = some r)
    (rest : Text) : constants.find? (fun e => e.1.isPrefixOf (t ++ rest)) = none := by
  obtain ⟨c, u, hc, rfl | rfl⟩ := head_of_scanNumber h
  · simp [constants, (ne_of_isAsciiDigit hc (d := 'n') rfl).symm,
      (ne_of_isAsciiDigit hc (d := 't') rfl).symm, (ne_of_isAsciiDigit hc (d := 'f') rfl).symm,
      (ne_of_isAsciiDigit hc (d := 'N') rfl).symm, (ne_of_isAsciiDigit hc (d := 'I') rfl).symm,
      (ne_of_isAsciiDigit hc (d := '-') rfl).symm]
  · simp [constants, (ne_of_isAsciiDigit hc (d := 'I') rfl).symm]

theorem scanScalar_number {t rest : Text} (h : isNumber t = true) (hrest : Stops rest) :
    scanScalar (t ++ rest) = some (number t, rest) := by
  rw [isNumber, Bool.or_eq_true, List.any_eq_true, decide_eq_true_iff] at h
  rcases h with ⟨name, hname, heq⟩ | h
  · obtain rfl := of_decide_eq_true heq
    simp only [List.mem_cons, List.not_mem_nil, or_false] at hname
    rcases hname with rfl | rfl | rfl <;> rfl
  · rw [scanScalar, find?_constants_eq_none h rest, scanNumber_append hrest h]
    rfl

/-- The digits of a number that an index can be. -/
theorem valid_ofNat {n : ℕ} (h : n ≤ maxSize) : (ofNat n).valid = true := by
  have hdigits : ∀ c ∈ Nat.toDigits 10 n, isAsciiDigit c = true := fun c hc =>
    Nat.isDigit_of_mem_toDigits (by decide) le_rfl hc
  have hzero : ∀ n : ℕ, (Nat.toDigits 10 n).head? = some '0' → n = 0 := by
    intro n
    induction n using Nat.strong_induction_on with
    | _ n ih =>
      intro hhead
      rw [Nat.toDigits_eq_if (by decide)] at hhead
      split_ifs at hhead with hlt
      · interval_cases n <;> first | rfl | cases hhead
      · have hne : Nat.toDigits 10 (n / 10) ≠ [] := Nat.toDigits_ne_nil
        rw [List.head?_append_of_ne_nil _ hne] at hhead
        have := ih (n / 10) (by omega) hhead
        omega
  have hlength : (Nat.toDigits 10 n).length ≤ maxIntegerDigits := by
    refine ((Nat.length_toDigits_le_iff (k := 19) (by decide) (by decide)).2 ?_).trans (by decide)
    exact h.trans_lt (by decide)
  by_cases hn : n = 0
  · subst hn
    decide
  · have hread : scanNumber (Nat.toDigits 10 n) = some (Nat.toDigits 10 n, []) := by
      cases heq : Nat.toDigits 10 n with
      | nil => exact absurd heq Nat.toDigits_ne_nil
      | cons c t =>
        rw [heq] at hdigits hlength
        have hc := hdigits c List.mem_cons_self
        have hnotZero : c ≠ '0' := fun hc => hn (hzero n (by rw [heq, hc]; rfl))
        have hminus : takeMinus (c :: t) = ([], c :: t) := by
          simp [takeMinus, ne_of_isAsciiDigit hc (d := '-') rfl]
        have htail : takeDigits t = (t, []) := by
          have hall : ∀ d ∈ t, isAsciiDigit d = true := fun d hd => hdigits d (List.mem_cons_of_mem c hd)
          rw [takeDigits, List.takeWhile_eq_self_iff.2 hall, List.dropWhile_eq_nil_iff.2 hall]
        rw [scanNumber, hminus]
        dsimp only
        rw [scanInteger, if_neg hnotZero, if_pos hc, htail]
        dsimp only
        rw [if_neg fun h => absurd h.2.2 (not_lt.2 hlength)]
        simp [scanFraction, scanExponent]
    rw [ofNat, valid, Nat.toList_repr, isNumber, hread]
    simp

/-! ### Texts are read back -/

theorem scanChar_escapeChar (c : Char) (u : Text) :
    scanChar (escapeChar c ++ u) = some (c, u) := by
  by_cases hquote : c = '"'
  · subst hquote
    rfl
  by_cases hslash : c = '\\'
  · subst hslash
    rfl
  rw [escapeChar, if_neg hquote, if_neg hslash]
  by_cases hplain : 0x20 ≤ c.toNat
  · rw [if_pos hplain]
    simp [scanChar, hslash, hplain]
  · rw [if_neg hplain]
    have hc : c = Char.ofNat c.toNat := (Char.ofNat_toNat c).symm
    have hlt : c.toNat < 32 := by omega
    generalize c.toNat = n at hc hlt
    subst hc
    interval_cases n <;> rfl

theorem head_escapeChar (c : Char) : ∃ d u, escapeChar c = d :: u ∧ d ≠ '"' := by
  unfold escapeChar
  split_ifs with h
  · exact ⟨_, _, rfl, by decide⟩
  · exact ⟨_, _, rfl, by decide⟩
  · exact ⟨_, _, rfl, h⟩
  all_goals exact ⟨_, _, rfl, by decide⟩

theorem scanStringFrom_escaped (t rest : Text) {fuel : ℕ} (h : t.length < fuel) :
    scanStringFrom fuel (t.flatMap escapeChar ++ '"' :: rest) = some (t, rest) := by
  induction t generalizing fuel with
  | nil =>
    cases fuel with
    | zero => cases h
    | succ fuel => rfl
  | cons c t ih =>
    cases fuel with
    | zero => cases h
    | succ fuel =>
      obtain ⟨d, u, hd, hne⟩ := head_escapeChar c
      have hhead : (escapeChar c ++ (t.flatMap escapeChar ++ '"' :: rest)).head? ≠ some '"' := by
        rw [hd]
        simpa using hne
      rw [List.flatMap_cons, List.append_assoc, scanStringFrom, if_neg hhead,
        scanChar_escapeChar]
      dsimp only
      rw [ih (by simpa using h)]
      rfl

/-- **A text is read back.** -/
theorem scanString_quote (t rest : Text) :
    scanString (t.flatMap escapeChar ++ '"' :: rest) = some (t, rest) := by
  refine scanStringFrom_escaped t rest ?_
  have hle : t.length ≤ (t.flatMap escapeChar).length := by
    induction t with
    | nil => exact le_rfl
    | cons c t ih =>
      obtain ⟨d, u, hd, -⟩ := head_escapeChar c
      rw [List.flatMap_cons, List.length_append, hd, List.length_cons, List.length_cons]
      omega
  rw [List.length_append]
  omega

/-! ### Values are read back -/

theorem skip_newline (level : ℕ) (t : Text) : skip (newline level ++ t) = skip t := by
  have hspaces : ∀ n : ℕ, skip (List.replicate n ' ' ++ t) = skip t := by
    intro n
    induction n with
    | zero => rfl
    | succ n ih => exact ih
  exact hspaces (2 * level)

theorem skip_cons {c : Char} (hc : isJsonSpace c = false) (t : Text) : skip (c :: t) = c :: t :=
  List.dropWhile_cons_of_neg (by simp [hc])

theorem stops_newline (level : ℕ) (t : Text) : Stops (newline level ++ t) := by
  intro c hc
  obtain rfl : '\n' = c := Option.some.inj hc
  decide

theorem stops_comma (t : Text) : Stops (',' :: t) := by
  intro c hc
  obtain rfl : ',' = c := Option.some.inj hc
  decide

/-- The characters that a number starts with. -/
def startsNumber (c : Char) : Bool := isAsciiDigit c || ['-', 'N', 'I'].contains c

theorem head_of_isNumber {t : Text} (h : isNumber t = true) :
    ∃ c u, t = c :: u ∧ startsNumber c = true := by
  rw [isNumber, Bool.or_eq_true, List.any_eq_true, decide_eq_true_iff] at h
  rcases h with ⟨name, hname, heq⟩ | h
  · obtain rfl := of_decide_eq_true heq
    simp only [List.mem_cons, List.not_mem_nil, or_false] at hname
    rcases hname with rfl | rfl | rfl <;> exact ⟨_, _, rfl, by decide⟩
  · obtain ⟨c, u, hc, rfl | rfl⟩ := head_of_scanNumber h
    · exact ⟨_, _, rfl, by rw [startsNumber, hc, Bool.true_or]⟩
    · exact ⟨_, _, rfl, by decide⟩

theorem ne_of_startsNumber {c d : Char} (hc : startsNumber c = true)
    (hd : startsNumber d = false) : c ≠ d := by
  rintro rfl
  rw [hc] at hd
  cases hd

/-- A value starts neither with white space nor with a closing bracket. -/
theorem head_dumpsAt (level : ℕ) {v : Json} (h : v.valid = true) :
    ∃ c t, dumpsAt level v = c :: t ∧ isJsonSpace c = false ∧ c ≠ ']' := by
  cases v with
  | null => exact ⟨_, _, rfl, by decide, by decide⟩
  | bool b => cases b <;> exact ⟨_, _, rfl, by decide, by decide⟩
  | str t => exact ⟨_, _, rfl, by decide, by decide⟩
  | list xs => cases xs <;> exact ⟨_, _, rfl, by decide, by decide⟩
  | dict es => cases es <;> exact ⟨_, _, rfl, by decide, by decide⟩
  | number t =>
    obtain ⟨c, u, rfl, hc⟩ := head_of_isNumber h
    have hspace : isJsonSpace c = false := by
      simp [isJsonSpace, ne_of_startsNumber hc (d := ' ') rfl,
        ne_of_startsNumber hc (d := '\t') rfl, ne_of_startsNumber hc (d := '\n') rfl,
        ne_of_startsNumber hc (d := '\r') rfl]
    exact ⟨c, u, rfl, hspace, ne_of_startsNumber hc rfl⟩

theorem ofPairs_of_nodup {es : List (Text × Json)} (h : (es.map Prod.fst).Nodup) :
    ofPairs es = dict es := by
  have hput : ∀ rest done : List (Text × Json), ((done ++ rest).map Prod.fst).Nodup →
      rest.foldl (fun es e => putItem Prod.fst e es) done = done ++ rest := by
    intro rest
    induction rest with
    | nil => simp
    | cons e rest ih =>
      intro done hnodup
      have hnew : e.1 ∉ done.map Prod.fst := by
        rw [List.map_append, List.map_cons] at hnodup
        exact fun hmem => (List.nodup_append.1 hnodup).2.2 _ hmem _ List.mem_cons_self rfl
      have hsplit : done ++ e :: rest = (done ++ [e]) ++ rest := by simp
      rw [List.foldl_cons, putItem, if_neg hnew, ih _ (by rwa [← hsplit]), hsplit]
  rw [ofPairs, hput es [] h]
  rfl

mutual

/-- The turns that reading a value takes. -/
def turns : Json → ℕ
  | list xs => 1 + turnsItems xs
  | dict es => 1 + turnsEntries es
  | null => 1
  | bool _ => 1
  | number _ => 1
  | str _ => 1

def turnsItems : List Json → ℕ
  | [] => 0
  | x :: xs => 1 + turns x + turnsItems xs

def turnsEntries : List (Text × Json) → ℕ
  | [] => 0
  | e :: es => 1 + turns e.2 + turnsEntries es

end

/-- The text of the items of a list. -/
def itemsText (level : ℕ) : List Json → Text
  | [] => []
  | x :: xs => dumpsAt level x ++ dumpsItems level xs

/-- The text of the entries of an object. -/
def entriesText (level : ℕ) : List (Text × Json) → Text
  | [] => []
  | e :: es => quote e.1 ++ ':' :: ' ' :: (dumpsAt level e.2 ++ dumpsEntries level es)

theorem dumpsItems_cons (level : ℕ) (x : Json) (xs : List Json) :
    dumpsItems level (x :: xs) = ',' :: (newline level ++ itemsText level (x :: xs)) := by
  simp [dumpsItems, itemsText]

theorem dumpsEntries_cons (level : ℕ) (e : Text × Json) (es : List (Text × Json)) :
    dumpsEntries level (e :: es) = ',' :: (newline level ++ entriesText level (e :: es)) := by
  simp [dumpsEntries, entriesText]

theorem dumpsAt_list_cons (level : ℕ) (x : Json) (xs : List Json) :
    dumpsAt level (list (x :: xs)) = '[' :: (newline (level + 1) ++
      (itemsText (level + 1) (x :: xs) ++ (newline level ++ [']']))) := by
  simp [dumpsAt, itemsText]

theorem dumpsAt_dict_cons (level : ℕ) (e : Text × Json) (es : List (Text × Json)) :
    dumpsAt level (dict (e :: es)) = '\x7b' :: (newline (level + 1) ++
      (entriesText (level + 1) (e :: es) ++ (newline level ++ ['\x7d']))) := by
  simp [dumpsAt, entriesText]

/-- The blank behind a colon is skipped. -/
theorem skip_dumpsAt (level : ℕ) {x : Json} (hx : x.valid = true) (u : Text) :
    skip (' ' :: (dumpsAt level x ++ u)) = dumpsAt level x ++ u := by
  obtain ⟨c, t, heq, hspace, -⟩ := head_dumpsAt level hx
  rw [heq]
  exact skip_cons hspace _

/-- A list goes on with its first item. -/
theorem skip_itemsText (level : ℕ) {x : Json} (hx : x.valid = true) (xs : List Json) (u : Text) :
    skip (itemsText level (x :: xs) ++ u) = itemsText level (x :: xs) ++ u ∧
      (itemsText level (x :: xs) ++ u).head? ≠ some ']' := by
  obtain ⟨c, t, heq, hspace, hne⟩ := head_dumpsAt level hx
  rw [itemsText, heq]
  exact ⟨skip_cons hspace _, by simpa using hne⟩

theorem entriesText_append (level : ℕ) (e : Text × Json) (es : List (Text × Json)) (u : Text) :
    entriesText level (e :: es) ++ u = '"' :: (e.1.flatMap escapeChar ++
      '"' :: ':' :: ' ' :: (dumpsAt level e.2 ++ (dumpsEntries level es ++ u))) := by
  simp [entriesText, quote]

theorem scanValue_number {t rest : Text} (h : isNumber t = true) (hrest : Stops rest) (fuel : ℕ) :
    scanValue (fuel + 1) (t ++ rest) = some (number t, rest) := by
  obtain ⟨c, u, rfl, hc⟩ := head_of_isNumber h
  rw [← scanScalar_number h hrest]
  simp [scanValue, ne_of_startsNumber hc (d := '"') rfl, ne_of_startsNumber hc (d := '[') rfl,
    ne_of_startsNumber hc (d := '\x7b') rfl]

/-! The turns of the two loops. -/

theorem scanItems_close {fuel : ℕ} {t rest u : Text} {x : Json}
    (hvalue : scanValue fuel t = some (x, rest)) (hskip : skip rest = ']' :: u) :
    scanItems (fuel + 1) t = some ([x], u) := by
  rw [scanItems, hvalue]
  dsimp only
  rw [hskip, List.head?_cons, if_pos rfl, List.tail_cons]

theorem scanItems_comma {fuel : ℕ} {t rest u : Text} {x : Json}
    (hvalue : scanValue fuel t = some (x, rest)) (hskip : skip rest = ',' :: u) :
    scanItems (fuel + 1) t = (scanItems fuel (skip u)).map fun r => (x :: r.1, r.2) := by
  rw [scanItems, hvalue]
  dsimp only
  rw [hskip, List.head?_cons, if_neg (by decide), if_pos rfl, List.tail_cons]

theorem scanEntries_close {fuel : ℕ} {t u rest v : Text} {key : Text} {x : Json}
    (hkey : scanString t = some (key, ':' :: u)) (hvalue : scanValue fuel (skip u) = some (x, rest))
    (hskip : skip rest = '\x7d' :: v) : scanEntries (fuel + 1) ('"' :: t) = some ([(key, x)], v) := by
  rw [scanEntries, List.head?_cons, if_pos rfl, List.tail_cons, hkey]
  dsimp only
  rw [skip_cons (by decide), List.head?_cons, if_pos rfl, List.tail_cons, hvalue]
  dsimp only
  rw [hskip, List.head?_cons, if_pos rfl, List.tail_cons]

theorem scanEntries_comma {fuel : ℕ} {t u rest v : Text} {key : Text} {x : Json}
    (hkey : scanString t = some (key, ':' :: u)) (hvalue : scanValue fuel (skip u) = some (x, rest))
    (hskip : skip rest = ',' :: v) : scanEntries (fuel + 1) ('"' :: t) =
      (scanEntries fuel (skip v)).map fun r => ((key, x) :: r.1, r.2) := by
  rw [scanEntries, List.head?_cons, if_pos rfl, List.tail_cons, hkey]
  dsimp only
  rw [skip_cons (by decide), List.head?_cons, if_pos rfl, List.tail_cons, hvalue]
  dsimp only
  rw [hskip, List.head?_cons, if_neg (by decide), if_pos rfl, List.tail_cons]

mutual

/-- **A value is read back.** -/
theorem scanValue_dumpsAt : ∀ (v : Json) (level fuel : ℕ) (rest : Text), v.valid = true →
    turns v ≤ fuel → Stops rest → scanValue fuel (dumpsAt level v ++ rest) = some (v, rest)
  | v, level, 0, rest => fun _ hfuel _ => by
    cases v <;> simp [turns] at hfuel
  | null, level, fuel + 1, rest => fun _ _ _ => rfl
  | bool true, level, fuel + 1, rest => fun _ _ _ => rfl
  | bool false, level, fuel + 1, rest => fun _ _ _ => rfl
  | number t, level, fuel + 1, rest => fun hvalid _ hrest => scanValue_number hvalid hrest fuel
  | str t, level, fuel + 1, rest => fun _ _ _ => by
    have htext : dumpsAt level (str t) ++ rest = '"' :: (t.flatMap escapeChar ++ '"' :: rest) := by
      simp [dumpsAt, quote]
    rw [htext, scanValue, scanString_quote]
    rfl
  | list [], level, fuel + 1, rest => fun _ _ _ => rfl
  | list (x :: xs), level, fuel + 1, rest => fun hvalid hfuel _ => by
    rw [valid, Bool.and_eq_true] at hvalid
    have hx : x.valid = true := (Bool.and_eq_true_iff.1 hvalid.2).1
    rw [turns] at hfuel
    rw [dumpsAt_list_cons, List.cons_append, scanValue]
    simp only [List.append_assoc, List.cons_append, List.nil_append]
    obtain ⟨hskip, hhead⟩ := skip_itemsText (level + 1) hx xs (newline level ++ ']' :: rest)
    rw [skip_newline, hskip, if_neg hhead, scanItems_itemsText (x :: xs) (level + 1) level fuel
      rest (List.cons_ne_nil _ _) hvalid.2 (by omega)]
    rfl
  | dict [], level, fuel + 1, rest => fun _ _ _ => rfl
  | dict (e :: es), level, fuel + 1, rest => fun hvalid hfuel _ => by
    rw [valid, Bool.and_eq_true, decide_eq_true_iff] at hvalid
    rw [turns] at hfuel
    have hread := scanEntries_entriesText (e :: es) (level + 1) level fuel rest
      (List.cons_ne_nil _ _) hvalid.2 (by omega)
    rw [dumpsAt_dict_cons, List.cons_append, scanValue]
    simp only [List.append_assoc, List.cons_append, List.nil_append]
    rw [skip_newline]
    rw [entriesText_append] at hread ⊢
    rw [skip_cons (by decide), if_neg (by simp), hread, Option.map_some, ofPairs_of_nodup hvalid.1]

theorem scanItems_itemsText : ∀ (xs : List Json) (level level' fuel : ℕ) (rest : Text), xs ≠ [] →
    validItems xs = true → turnsItems xs ≤ fuel →
      scanItems fuel (itemsText level xs ++ (newline level' ++ ']' :: rest)) = some (xs, rest)
  | [], _, _, _, _ => fun h => absurd rfl h
  | x :: xs, level, level', 0, rest => fun _ _ hfuel => by
    simp [turnsItems] at hfuel
  | [x], level, level', fuel + 1, rest => fun _ hvalid hfuel => by
    have hx : x.valid = true := (Bool.and_eq_true_iff.1 hvalid).1
    rw [turnsItems] at hfuel
    rw [itemsText, dumpsItems, List.append_nil]
    refine scanItems_close
      (scanValue_dumpsAt x level fuel _ hx (by omega) (stops_newline _ _)) ?_
    rw [skip_newline, skip_cons (by decide)]
  | x :: y :: xs, level, level', fuel + 1, rest => fun _ hvalid hfuel => by
    obtain ⟨hx, hxs⟩ := Bool.and_eq_true_iff.1 hvalid
    rw [turnsItems] at hfuel
    rw [itemsText, dumpsItems_cons, List.append_assoc, List.cons_append, List.append_assoc,
      scanItems_comma (scanValue_dumpsAt x level fuel _ hx (by omega) (stops_comma _))
        (skip_cons (by decide) _),
      skip_newline, (skip_itemsText level (Bool.and_eq_true_iff.1 hxs).1 xs _).1,
      scanItems_itemsText (y :: xs) level level' fuel rest (List.cons_ne_nil _ _) hxs (by omega)]
    rfl

theorem scanEntries_entriesText : ∀ (es : List (Text × Json)) (level level' fuel : ℕ) (rest : Text),
    es ≠ [] → validEntries es = true → turnsEntries es ≤ fuel →
      scanEntries fuel (entriesText level es ++ (newline level' ++ '\x7d' :: rest)) =
        some (es, rest)
  | [], _, _, _, _ => fun h => absurd rfl h
  | e :: es, level, level', 0, rest => fun _ _ hfuel => by
    simp [turnsEntries] at hfuel
  | [e], level, level', fuel + 1, rest => fun _ hvalid hfuel => by
    have he : e.2.valid = true := (Bool.and_eq_true_iff.1 hvalid).1
    rw [turnsEntries] at hfuel
    have hvalue := scanValue_dumpsAt e.2 level fuel (newline level' ++ '\x7d' :: rest) he (by omega)
      (stops_newline _ _)
    rw [← skip_dumpsAt level he] at hvalue
    rw [entriesText_append, dumpsEntries, List.nil_append]
    refine scanEntries_close (scanString_quote _ _) hvalue ?_
    rw [skip_newline, skip_cons (by decide)]
  | e :: e' :: es, level, level', fuel + 1, rest => fun _ hvalid hfuel => by
    obtain ⟨he, hes⟩ := Bool.and_eq_true_iff.1 hvalid
    rw [turnsEntries] at hfuel
    have hrest := scanEntries_entriesText (e' :: es) level level' fuel rest (List.cons_ne_nil _ _)
      hes (by omega)
    have hvalue := fun u => scanValue_dumpsAt e.2 level fuel (',' :: u) he (by omega) (stops_comma u)
    rw [entriesText_append, dumpsEntries_cons, List.cons_append, List.append_assoc,
      scanEntries_comma (scanString_quote _ _)
        ((congrArg _ (skip_dumpsAt level he _)).trans (hvalue _)) (skip_cons (by decide) _),
      skip_newline]
    rw [entriesText_append] at hrest ⊢
    rw [skip_cons (by decide), hrest]
    rfl

end

mutual

theorem turns_le : ∀ (v : Json) (level : ℕ), v.valid = true →
    turns v ≤ 2 * (dumpsAt level v).length
  | null, _ => fun _ => by simp [turns, dumpsAt]
  | bool true, _ => fun _ => by simp [turns, dumpsAt]
  | bool false, _ => fun _ => by simp [turns, dumpsAt]
  | str t, _ => fun _ => by
    simp [turns, dumpsAt, quote]
    omega
  | number t, _ => fun h => by
    obtain ⟨c, u, rfl, -⟩ := head_of_isNumber h
    simp [turns, dumpsAt]
    omega
  | list [], _ => fun _ => by simp [turns, turnsItems, dumpsAt]
  | list (x :: xs), level => fun h => by
    have := turnsItems_le (x :: xs) (level + 1) (Bool.and_eq_true_iff.1 h).2
    rw [dumpsAt_list_cons, turns]
    simp only [List.length_cons, List.length_append]
    omega
  | dict [], _ => fun _ => by simp [turns, turnsEntries, dumpsAt]
  | dict (e :: es), level => fun h => by
    have := turnsEntries_le (e :: es) (level + 1) (Bool.and_eq_true_iff.1 h).2
    rw [dumpsAt_dict_cons, turns]
    simp only [List.length_cons, List.length_append]
    omega

theorem turnsItems_le : ∀ (xs : List Json) (level : ℕ), validItems xs = true →
    turnsItems xs ≤ 2 * (itemsText level xs).length + 1
  | [], _ => fun _ => by simp [turnsItems]
  | [x], level => fun h => by
    have := turns_le x level (Bool.and_eq_true_iff.1 h).1
    rw [turnsItems, turnsItems, itemsText, List.length_append]
    omega
  | x :: y :: xs, level => fun h => by
    have hx := turns_le x level (Bool.and_eq_true_iff.1 h).1
    have hxs := turnsItems_le (y :: xs) level (Bool.and_eq_true_iff.1 h).2
    rw [turnsItems, itemsText, dumpsItems_cons]
    simp only [List.length_cons, List.length_append]
    omega

theorem turnsEntries_le : ∀ (es : List (Text × Json)) (level : ℕ), validEntries es = true →
    turnsEntries es ≤ 2 * (entriesText level es).length + 1
  | [], _ => fun _ => by simp [turnsEntries]
  | [e], level => fun h => by
    have := turns_le e.2 level (Bool.and_eq_true_iff.1 h).1
    rw [turnsEntries, turnsEntries, entriesText]
    simp only [List.length_cons, List.length_append]
    omega
  | e :: e' :: es, level => fun h => by
    have he := turns_le e.2 level (Bool.and_eq_true_iff.1 h).1
    have hes := turnsEntries_le (e' :: es) level (Bool.and_eq_true_iff.1 h).2
    rw [turnsEntries, entriesText, dumpsEntries_cons]
    simp only [List.length_cons, List.length_append]
    omega

end

/-- **`json.loads` reads what `json.dumps` wrote.** -/
theorem loads_dumps {v : Json} (h : v.valid = true) : loads v.dumps = some v := by
  obtain ⟨c, t, heq, hspace, -⟩ := head_dumpsAt 0 h
  have hskip : skip v.dumps = v.dumps ++ [] := by
    rw [dumps, heq, List.append_nil]
    exact skip_cons hspace t
  have hfuel : turns v ≤ 2 * v.dumps.length + 2 := (turns_le v 0 h).trans (Nat.le_add_right _ 2)
  have hread : scanValue (2 * v.dumps.length + 2) (v.dumps ++ []) = some (v, []) :=
    scanValue_dumpsAt v 0 _ [] h hfuel fun c hc => by cases hc
  rw [loads, hskip, hread]
  rfl

end Json
end Python
end OpenFoamAgent
