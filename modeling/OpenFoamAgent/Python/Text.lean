/-
# Python text

Python's `str` as the list of its code points, with the operations of the
language that the modelled modules call: `isspace`, `strip`, `in`, `count`,
`replace(old, new, 1)`, `split("/")`, `casefold` and the newline translation of
a file opened in text mode.

A `str` holding a lone surrogate cannot be encoded to UTF-8, so no such text
reaches a file; `Char` leaves the surrogates out.
-/
import Mathlib.Algebra.Order.Ring.Nat
import Mathlib.Data.List.Infix
import Mathlib.Data.List.DropRight
import Mathlib.Data.String.Basic

namespace OpenFoamAgent
namespace Python

/-- A Python `str`, as its code points. -/
abbrev Text := List Char

instance : LawfulBEq Text := List.instLawfulBEq

instance : LawfulBEq (List Text) := List.instLawfulBEq

/-- The characters `str.isspace` accepts. -/
def isSpace (c : Char) : Bool :=
  let n := c.toNat
  (9 ≤ n && n ≤ 13) || (28 ≤ n && n ≤ 32) || n == 133 || n == 160 || n == 5760 ||
    (8192 ≤ n && n ≤ 8202) || n == 8232 || n == 8233 || n == 8239 || n == 8287 || n == 12288

/-- The class `[A-Za-z]`. -/
def isAsciiLetter (c : Char) : Bool :=
  ('A' ≤ c && c ≤ 'Z') || ('a' ≤ c && c ≤ 'z')

/-- The class `[0-9]`. -/
def isAsciiDigit (c : Char) : Bool := '0' ≤ c && c ≤ '9'

/-- The class `[A-Za-z0-9_]`. -/
def isAsciiWord (c : Char) : Bool := isAsciiLetter c || isAsciiDigit c || c == '_'

/-- The text without the leading and trailing characters that satisfy `p`. -/
def stripBy (p : Char → Bool) (t : Text) : Text := (t.dropWhile p).rdropWhile p

/-- `str.strip()`. -/
def strip (t : Text) : Text := stripBy isSpace t

/-- `needle in hay`. -/
def contains (needle : Text) : Text → Bool
  | [] => needle.isEmpty
  | c :: cs => needle.isPrefixOf (c :: cs) || contains needle cs

/-- The loop of `str.count`: `skip` characters of the last match are still to be
passed before the next match may begin. -/
def countFrom (needle : Text) : ℕ → Text → ℕ
  | _, [] => 0
  | skip + 1, _ :: cs => countFrom needle skip cs
  | 0, c :: cs =>
    if needle.isPrefixOf (c :: cs) then countFrom needle (needle.length - 1) cs + 1
    else countFrom needle 0 cs

/-- `hay.count(needle)` for a non-empty `needle`: the matches that do not overlap. -/
def count (needle hay : Text) : ℕ := countFrom needle 0 hay

/-- `hay.replace(old, new, 1)`. -/
def replaceOnce (old new : Text) : Text → Text
  | [] => if old.isEmpty then new else []
  | c :: cs =>
    if old.isPrefixOf (c :: cs) then new ++ (c :: cs).drop old.length
    else c :: replaceOnce old new cs

/-- The characters of a quoted string after its opening quote, up to and with the
closing one: `(?:\\.|[^"\\])*"`. -/
def quotedLength (quote : Char) : Text → Option ℕ
  | [] => none
  | ['\\'] => none
  | '\\' :: c :: cs => if c = '\n' then none else (quotedLength quote cs).map (· + 2)
  | c :: cs => if c = quote then some 1 else (quotedLength quote cs).map (· + 1)

/-- What a file opened in text mode gives for the characters it holds:
`"\r\n"` and a lone `"\r"` are read as `"\n"`. -/
def universalNewlines : Text → Text
  | [] => []
  | '\r' :: '\n' :: cs => '\n' :: universalNewlines cs
  | '\r' :: cs => '\n' :: universalNewlines cs
  | c :: cs => c :: universalNewlines cs

/-- `str.casefold` of one character, as far as an ASCII pattern can tell: the
letters `A` to `Z`, and the characters outside ASCII whose folding holds an
ASCII letter. Every other character folds to characters outside ASCII. -/
def casefoldChar (c : Char) : Text :=
  if 'A' ≤ c && c ≤ 'Z' then [Char.ofNat (c.toNat + 32)]
  else match c.toNat with
    | 0xdf => ['s', 's']
    | 0x130 => ['i', Char.ofNat 0x307]
    | 0x149 => [Char.ofNat 0x2bc, 'n']
    | 0x17f => ['s']
    | 0x1f0 => ['j', Char.ofNat 0x30c]
    | 0x1e96 => ['h', Char.ofNat 0x331]
    | 0x1e97 => ['t', Char.ofNat 0x308]
    | 0x1e98 => ['w', Char.ofNat 0x30a]
    | 0x1e99 => ['y', Char.ofNat 0x30a]
    | 0x1e9a => ['a', Char.ofNat 0x2be]
    | 0x1e9e => ['s', 's']
    | 0x212a => ['k']
    | 0xfb00 => ['f', 'f']
    | 0xfb01 => ['f', 'i']
    | 0xfb02 => ['f', 'l']
    | 0xfb03 => ['f', 'f', 'i']
    | 0xfb04 => ['f', 'f', 'l']
    | 0xfb05 => ['s', 't']
    | 0xfb06 => ['s', 't']
    | _ => [c]

/-- `str.casefold`. -/
def casefold (t : Text) : Text := t.flatMap casefoldChar

/-- Stripping twice is stripping once. -/
theorem stripBy_stripBy (p : Char → Bool) (t : Text) : stripBy p (stripBy p t) = stripBy p t := by
  -- the first character that stays is not dropped on the left, so the right end decides
  have hleft : ((t.dropWhile p).rdropWhile p).dropWhile p = (t.dropWhile p).rdropWhile p := by
    rw [List.dropWhile_eq_self_iff]
    intro hlen hp
    have hpre := List.rdropWhile_prefix p (t.dropWhile p)
    have hpos : 0 < (t.dropWhile p).length := hlen.trans_le hpre.length_le
    refine List.dropWhile_get_zero_not p t hpos ?_
    rwa [List.get_eq_getElem, ← hpre.getElem hlen]
  rw [stripBy, stripBy, hleft, List.rdropWhile_idempotent]

theorem mem_of_mem_stripBy {p : Char → Bool} {t : Text} {c : Char} (h : c ∈ stripBy p t) : c ∈ t :=
  (List.dropWhile_suffix p).subset ((List.rdropWhile_prefix p _).subset h)

/-- Nothing is left exactly when there is nothing else. -/
theorem stripBy_eq_nil {p : Char → Bool} {t : Text} : stripBy p t = [] ↔ ∀ c ∈ t, p c := by
  unfold stripBy
  rw [List.rdropWhile_eq_nil_iff]
  constructor
  · intro h c hc
    rw [← List.takeWhile_append_dropWhile (p := p) (l := t)] at hc
    rcases List.mem_append.1 hc with hc | hc
    · exact List.mem_takeWhile_imp hc
    · exact h c hc
  · exact fun h c hc => h c ((List.dropWhile_suffix p).mem hc)

/-- A first character that stays is the first of what is left. -/
theorem head?_stripBy {p : Char → Bool} {t : Text} {c : Char} (h : t.head? = some c)
    (hc : p c = false) : (stripBy p t).head? = some c := by
  obtain ⟨cs, rfl⟩ := List.head?_eq_some_iff.1 h
  have hne : stripBy p (c :: cs) ≠ [] := fun hnil =>
    Bool.false_ne_true (hc.symm.trans (stripBy_eq_nil.1 hnil c List.mem_cons_self))
  obtain ⟨d, r, hstrip⟩ := List.exists_cons_of_ne_nil hne
  have hstart : stripBy p (c :: cs) <+: c :: cs := by
    rw [stripBy, List.dropWhile_cons_of_neg (by simp [hc])]
    exact List.rdropWhile_prefix p _
  rw [hstrip, List.cons_prefix_cons] at hstart
  rw [hstrip, hstart.1, List.head?_cons]

theorem strip_eq_self {t : Text} (h : ∀ c ∈ t, isSpace c = false) : strip t = t := by
  have hleft : t.dropWhile isSpace = t := List.dropWhile_eq_self_iff.2 fun hlen => by
    rw [h _ (List.getElem_mem hlen)]
    exact Bool.false_ne_true
  rw [strip, stripBy, hleft, List.rdropWhile_eq_self_iff]
  intro hne
  rw [h _ (List.getLast_mem hne)]
  exact Bool.false_ne_true

theorem isSpace_of_isAsciiWord {c : Char} (h : isAsciiWord c) : isSpace c = false := by
  have hle : ∀ a b : Char, a ≤ b ↔ a.toNat ≤ b.toNat := fun a b => Iff.rfl
  have hunderscore : c = '_' ↔ c.toNat = 95 :=
    ⟨fun h => h ▸ rfl, fun h => Char.ext (UInt32.toNat_inj.1 h)⟩
  simp only [isAsciiWord, isAsciiLetter, isAsciiDigit, Bool.or_eq_true, Bool.and_eq_true,
    decide_eq_true_eq, beq_iff_eq, hle, hunderscore] at h
  simp only [isSpace, Bool.or_eq_false_iff, Bool.and_eq_false_iff, decide_eq_false_iff_not,
    beq_eq_false_iff_ne]
  have hA : 'A'.toNat = 65 := rfl
  have hZ : 'Z'.toNat = 90 := rfl
  have ha : 'a'.toNat = 97 := rfl
  have hz : 'z'.toNat = 122 := rfl
  have h0 : '0'.toNat = 48 := rfl
  have h9 : '9'.toNat = 57 := rfl
  omega

/-- A text without carriage returns is read back as it is. -/
theorem universalNewlines_eq_self {t : Text} (h : '\r' ∉ t) : universalNewlines t = t := by
  induction t with
  | nil => rfl
  | cons c cs ih =>
    have hc : c ≠ '\r' := fun e => h (e ▸ List.mem_cons_self)
    have hcs : '\r' ∉ cs := fun hm => h (List.mem_cons_of_mem _ hm)
    rw [universalNewlines, ih hcs]
    · exact fun _ e _ => hc e
    · exact hc

/-- What was read holds no carriage return. -/
theorem cr_notMem_universalNewlines (t : Text) : '\r' ∉ universalNewlines t := by
  fun_induction universalNewlines t with
  | case1 => simp
  | case2 cs ih => simpa using ih
  | case3 cs _ ih => simpa using ih
  | case4 c cs _ hc ih =>
    rintro (_ | ⟨_, hm⟩)
    · exact hc rfl
    · exact ih hm

end Python
end OpenFoamAgent
