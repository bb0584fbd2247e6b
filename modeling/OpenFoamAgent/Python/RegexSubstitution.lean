/-
# Substitutions

`str.replace` and `re.sub`. A text in which the needle does not stand is left alone by the
first. The second goes through the text from the left: where the expression matches, the
match is replaced and the search goes on behind it, and elsewhere the character stays
(`subFrom_match`, `subFrom_keep`).
-/
import OpenFoamAgent.Python.RegexTokens

namespace OpenFoamAgent
namespace Python

/-- The loop of `str.replace`: `skip` characters of the last match are still to be passed. -/
def replaceFrom (old new : Text) : ℕ → Text → Text
  | _, [] => []
  | skip + 1, _ :: cs => replaceFrom old new skip cs
  | 0, c :: cs =>
    if old.isPrefixOf (c :: cs) then new ++ replaceFrom old new (old.length - 1) cs
    else c :: replaceFrom old new 0 cs

/-- `text.replace(old, new)`, for an `old` that is not empty. -/
def replaceAll (old new text : Text) : Text := replaceFrom old new 0 text

theorem replaceAll_of_not_contains {old : Text} (new : Text) {t : Text}
    (h : contains old t = false) : replaceAll old new t = t := by
  unfold replaceAll
  induction t with
  | nil => rfl
  | cons c cs ih =>
    rw [contains, Bool.or_eq_false_iff] at h
    rw [replaceFrom, if_neg (by rw [h.1]; exact Bool.false_ne_true), ih h.2]

namespace Pattern

/-- The loop of `re.sub` for a pattern without empty matches; there are no more of them than
characters. -/
def subFrom (p : Pattern) (replacement : Cursor → Text) : ℕ → Option Char → Text → Text
  | 0, _, t => t
  | _ + 1, _, [] => []
  | n + 1, behind, c :: cs =>
    match (p.run { behind, ahead := c :: cs }).head? with
    | some m => replacement m ++ subFrom p replacement n m.behind m.ahead
    | none => c :: subFrom p replacement n (some c) cs

/-- `p.sub(replacement, text)`. -/
def sub (p : Pattern) (replacement : Cursor → Text) (text : Text) : Text :=
  p.subFrom replacement text.length none text

variable {p : Pattern} {replacement : Cursor → Text}

theorem subFrom_nil (n : ℕ) (behind : Option Char) : p.subFrom replacement n behind [] = [] := by
  cases n <;> rfl

/-- A character at which no match begins stays. -/
theorem subFrom_keep {n : ℕ} {behind : Option Char} {c : Char} {cs : Text}
    (h : p.run { behind, ahead := c :: cs } = []) :
    p.subFrom replacement (n + 1) behind (c :: cs) =
      c :: p.subFrom replacement n (some c) cs := by
  rw [subFrom, h]
  rfl

/-- A match is replaced, and the search goes on behind it. -/
theorem subFrom_match {n : ℕ} {behind : Option Char} {c : Char} {cs : Text} {m : Cursor}
    {others : List Cursor} (h : p.run { behind, ahead := c :: cs } = m :: others) :
    p.subFrom replacement (n + 1) behind (c :: cs) =
      replacement m ++ p.subFrom replacement n m.behind m.ahead := by
  rw [subFrom, h]
  rfl

/-! ### A text cut at its matches -/

/-- The characters that stay and the matches that are replaced, from the left. -/
def cutFrom (p : Pattern) : ℕ → Option Char → Text → List (Char ⊕ Cursor)
  | 0, _, t => t.map .inl
  | _ + 1, _, [] => []
  | n + 1, behind, c :: cs =>
    match (p.run { behind, ahead := c :: cs }).head? with
    | some m => .inr m :: cutFrom p n m.behind m.ahead
    | none => .inl c :: cutFrom p n (some c) cs

/-- The parts of a text to `p.sub`. -/
def cut (p : Pattern) (text : Text) : List (Char ⊕ Cursor) := p.cutFrom text.length none text

/-- A text without a match stays whole. -/
theorem cut_eq_map {text : Text}
    (h : ∀ before rest behind, text = before ++ rest → p.run { behind, ahead := rest } = []) :
    p.cut text = text.map .inl := by
  unfold cut
  generalize text.length = n
  generalize (none : Option Char) = behind
  induction n generalizing behind text with
  | zero => rfl
  | succ n ih =>
    cases text with
    | nil => rfl
    | cons c cs =>
      rw [cutFrom, h [] (c :: cs) behind rfl]
      dsimp only [List.head?_nil]
      rw [ih fun before rest behind hcs => h (c :: before) rest behind (by rw [hcs]; rfl)]
      rfl

end Pattern

end Python
end OpenFoamAgent
