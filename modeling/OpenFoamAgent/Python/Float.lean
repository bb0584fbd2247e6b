/-
# `float(text)`

The conversion of a text to a binary64 number: the grammar of Python's float
literals (with underscores between digits and the decimal digits of all
scripts), and the rounding to nearest, ties to even.

A finite number is stored as its magnitude in units of the smallest positive
binary64 number `2 ^ -1074`, so that finite magnitudes compare as natural
numbers. Rounding keeps 53 significant bits of that count.
-/
import OpenFoamAgent.Python.Text

namespace OpenFoamAgent
namespace Python

/-- A binary64 value: `units * 2 ^ -1074` with a sign, an infinity or a NaN. -/
inductive Binary64 where
  | finite (negative : Bool) (units : ℕ)
  | infinite (negative : Bool)
  | nan
  deriving DecidableEq

/-- `n / d` rounded to the nearest integer, ties to even. -/
def roundHalfEven (n d : ℕ) : ℕ :=
  if 2 * (n % d) < d then n / d
  else if d < 2 * (n % d) then n / d + 1
  else n / d + n / d % 2

/-- The binary64 magnitude nearest to `n / d`, both counted in units. -/
def roundUnits (n d : ℕ) : ℕ :=
  let shift := Nat.log2 (n / d) - 52
  roundHalfEven n (d * 2 ^ shift) * 2 ^ shift

/-- The first magnitude that overflows: `2 ^ 1024` in units. -/
def overflowUnits : ℕ := 2 ^ 2098

/-- The binary64 value nearest to `± mantissa * 10 ^ exponent`. -/
def nearestBinary64 (negative : Bool) (mantissa : ℕ) (exponent : ℤ) : Binary64 :=
  let units := match exponent with
    | .ofNat e => roundUnits (mantissa * 10 ^ e * 2 ^ 1074) 1
    | .negSucc e => roundUnits (mantissa * 2 ^ 1074) (10 ^ (e + 1))
  if units < overflowUnits then .finite negative units else .infinite negative

/-- The code points of the digit zero in every script. -/
def zeroDigits : List ℕ :=
  [0x30, 0x660, 0x6f0, 0x7c0, 0x966, 0x9e6, 0xa66, 0xae6, 0xb66, 0xbe6, 0xc66, 0xce6, 0xd66,
    0xde6, 0xe50, 0xed0, 0xf20, 0x1040, 0x1090, 0x17e0, 0x1810, 0x1946, 0x19d0, 0x1a80, 0x1a90,
    0x1b50, 0x1bb0, 0x1c40, 0x1c50, 0xa620, 0xa8d0, 0xa900, 0xa9d0, 0xa9f0, 0xaa50, 0xabf0,
    0xff10, 0x104a0, 0x10d30, 0x11066, 0x110f0, 0x11136, 0x111d0, 0x112f0, 0x11450, 0x114d0,
    0x11650, 0x116c0, 0x11730, 0x118e0, 0x11950, 0x11c50, 0x11d50, 0x11da0, 0x11f50, 0x16a60,
    0x16ac0, 0x16b50, 0x1d7ce, 0x1d7d8, 0x1d7e2, 0x1d7ec, 0x1d7f6, 0x1e140, 0x1e2f0, 0x1e4f0,
    0x1e950, 0x1fbf0]

/-- The decimal digit a character stands for becomes the ASCII digit. -/
def asciiDigit (c : Char) : Char :=
  match zeroDigits.find? fun z => z ≤ c.toNat ∧ c.toNat < z + 10 with
  | some z => Char.ofNat (0x30 + (c.toNat - z))
  | none => c

def asciiLower (c : Char) : Char :=
  if 'A' ≤ c && c ≤ 'Z' then Char.ofNat (c.toNat + 32) else c

/-- The value of a run of ASCII digits. -/
def digitsValue (t : Text) : ℕ := t.foldl (fun n c => n * 10 + (c.toNat - 0x30)) 0

/-- Every underscore stands between two digits. -/
def underscoresBetweenDigits : Option Char → Text → Bool
  | _, [] => true
  | previous, c :: cs =>
    (c != '_' || (previous.any isAsciiDigit && cs.head?.any isAsciiDigit)) &&
      underscoresBetweenDigits (some c) cs

/-- An optional sign: whether it is a minus, and the text behind it. -/
def splitSign : Text → Bool × Text
  | '-' :: cs => (true, cs)
  | '+' :: cs => (false, cs)
  | cs => (false, cs)

/-- The exponent behind the mantissa, which must end the text. -/
def parseExponent : Text → Option ℤ
  | [] => some 0
  | c :: cs =>
    if c = 'e' ∨ c = 'E' then
      let (negative, digits) := splitSign cs
      if digits ≠ [] ∧ digits.all isAsciiDigit then
        some (if negative then -(digitsValue digits : ℤ) else digitsValue digits)
      else none
    else none

/-- A decimal literal without sign. -/
def parseDecimal (negative : Bool) (t : Text) : Option Binary64 :=
  let (whole, rest) := t.span isAsciiDigit
  let (fraction, rest') := match rest with
    | '.' :: cs => cs.span isAsciiDigit
    | _ => ([], rest)
  if whole = [] ∧ fraction = [] then none
  else
    (parseExponent rest').map fun e =>
      nearestBinary64 negative (digitsValue (whole ++ fraction)) (e - fraction.length)

/-- `float(text)`, `none` for the `ValueError`. -/
def parseFloat (text : Text) : Option Binary64 :=
  let t := (strip text).map asciiDigit
  let (negative, body) := splitSign t
  let lowered := body.map asciiLower
  if lowered = "inf".toList ∨ lowered = "infinity".toList then some (.infinite negative)
  else if lowered = "nan".toList then some .nan
  else if underscoresBetweenDigits none body then
    parseDecimal negative (body.filter (· != '_'))
  else none

/-- Literals and what they are rounded to. -/
example :
    parseFloat "1".toList = some (.finite false (2 ^ 1074)) ∧
    parseFloat "5e-1".toList = some (.finite false (2 ^ 1073)) ∧
    parseFloat "1_0.0".toList = parseFloat "10".toList ∧
    parseFloat "0.1".toList = some (.finite false (3602879701896397 * 2 ^ 1019)) ∧
    parseFloat "1e400".toList = some (.infinite false) ∧
    parseFloat "1__0".toList = none ∧ parseFloat "1e".toList = none := by
  decide +kernel

/-! ### The characters of a literal -/

/-- The characters of a decimal literal. -/
def floatCharacter (c : Char) : Bool :=
  isAsciiDigit c || c ∈ ['.', 'e', 'E', '+', '-', '_']

theorem floatCharacter_of_splitSign {t : Text} (h : ∀ c ∈ (splitSign t).2, floatCharacter c) :
    ∀ c ∈ t, floatCharacter c := by
  unfold splitSign at h
  split at h
  · rintro c (_ | ⟨_, hc⟩)
    · decide
    · exact h c hc
  · rintro c (_ | ⟨_, hc⟩)
    · decide
    · exact h c hc
  · exact h

theorem floatCharacter_of_parseExponent {t : Text} {e : ℤ} (h : parseExponent t = some e) :
    ∀ c ∈ t, floatCharacter c := by
  unfold parseExponent at h
  split at h
  · simp
  · rename_i c cs
    split_ifs at h with he
    obtain ⟨-, hall⟩ : (splitSign cs).2 ≠ [] ∧ (splitSign cs).2.all isAsciiDigit := by
      dsimp only at h
      split_ifs at h with hd <;> exact hd
    have hcs : ∀ c ∈ cs, floatCharacter c := floatCharacter_of_splitSign fun c hc => by
      simp [floatCharacter, List.all_eq_true.1 hall c hc]
    rintro d (_ | ⟨_, hd⟩)
    · rcases he with rfl | rfl <;> decide
    · exact hcs d hd

theorem floatCharacter_of_takeWhile {t : Text} : ∀ c ∈ t.takeWhile isAsciiDigit, floatCharacter c :=
  fun _ hc => by simp [floatCharacter, List.mem_takeWhile_imp hc]

theorem floatCharacter_of_parseDecimal {negative : Bool} {t : Text} {v : Binary64}
    (h : parseDecimal negative t = some v) : t ≠ [] ∧ ∀ c ∈ t, floatCharacter c := by
  have hwhole : ∀ c ∈ t.takeWhile isAsciiDigit, floatCharacter c := floatCharacter_of_takeWhile
  have ht : t.takeWhile isAsciiDigit ++ t.dropWhile isAsciiDigit = t :=
    List.takeWhile_append_dropWhile
  unfold parseDecimal at h
  simp only [List.span_eq_takeWhile_dropWhile] at h
  have hrest : ∀ c ∈ t.dropWhile isAsciiDigit, floatCharacter c := by
    split at h
    · rename_i cs hdot
      split_ifs at h
      obtain ⟨e, he, -⟩ := Option.map_eq_some_iff.1 h
      have hcs : cs.takeWhile isAsciiDigit ++ cs.dropWhile isAsciiDigit = cs :=
        List.takeWhile_append_dropWhile
      rw [hdot]
      rintro c (_ | ⟨_, hc⟩)
      · decide
      · rw [← hcs] at hc
        rcases List.mem_append.1 hc with hc | hc
        · exact floatCharacter_of_takeWhile c hc
        · exact floatCharacter_of_parseExponent he c hc
    · split_ifs at h
      obtain ⟨e, he, -⟩ := Option.map_eq_some_iff.1 h
      exact floatCharacter_of_parseExponent he
  refine ⟨?_, fun c hc => ?_⟩
  · rintro rfl
    simp at h
  · rw [← ht] at hc
    rcases List.mem_append.1 hc with hc | hc
    · exact hwhole c hc
    · exact hrest c hc

/-- White space stands for no digit. -/
theorem asciiDigit_of_isSpace {c : Char} (h : isSpace c) : asciiDigit c = c := by
  have hnone : zeroDigits.find? (fun z => decide (z ≤ c.toNat ∧ c.toNat < z + 10)) = none := by
    rw [List.find?_eq_none]
    intro z hz hin
    simp only [decide_eq_true_eq] at hin
    simp only [isSpace, Bool.or_eq_true, Bool.and_eq_true, decide_eq_true_eq, beq_iff_eq] at h
    simp only [zeroDigits, List.mem_cons, List.not_mem_nil, or_false] at hz
    omega
  rw [asciiDigit, hnone]

/-- A finite number is read from characters none of which is white space or a quote. -/
theorem of_parseFloat_finite {t : Text} {negative : Bool} {units : ℕ}
    (h : parseFloat t = some (.finite negative units)) :
    strip t ≠ [] ∧ ∀ c ∈ strip t, ¬ isSpace c ∧ c ≠ '"' := by
  unfold parseFloat at h
  dsimp only at h
  split_ifs at h
  · cases h
  · cases h
  obtain ⟨hne, hchars⟩ := floatCharacter_of_parseDecimal h
  have hall : ∀ c ∈ (strip t).map asciiDigit, floatCharacter c :=
    floatCharacter_of_splitSign fun c hc => by
      by_cases hu : c = '_'
      · subst hu; decide
      · exact hchars c (List.mem_filter.2 ⟨hc, bne_iff_ne.2 hu⟩)
  refine ⟨?_, fun c hc => ⟨fun hs => ?_, ?_⟩⟩
  · intro hnil
    rw [hnil] at hne
    exact hne rfl
  · have hf := hall _ (List.mem_map_of_mem hc)
    rw [asciiDigit_of_isSpace hs] at hf
    simp only [floatCharacter, isAsciiDigit, Bool.or_eq_true, Bool.and_eq_true,
      decide_eq_true_eq, List.mem_cons, List.not_mem_nil, or_false] at hf
    rcases hf with ⟨h0, h9⟩ | hf
    · simp only [isSpace, Bool.or_eq_true, Bool.and_eq_true, decide_eq_true_eq, beq_iff_eq] at hs
      have h0' : 48 ≤ c.toNat := h0
      have h9' : c.toNat ≤ 57 := h9
      omega
    · rcases hf with rfl | rfl | rfl | rfl | rfl | rfl <;> revert hs <;> decide
  · rintro rfl
    exact absurd (hall _ (List.mem_map_of_mem hc)) (by decide)

end Python
end OpenFoamAgent
