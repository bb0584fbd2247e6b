/-
# Regular expressions

The part of the `re` module that the log reader uses: a pattern is run by
backtracking, and the ways it can match at a position are listed in the order in
which the engine tries them. So the first of the list is the match of `re`, with
the groups it captured.
-/
import OpenFoamAgent.Python.Float

namespace OpenFoamAgent
namespace Python

/-- A regular expression. -/
inductive Pattern where
  /-- One character of a class. -/
  | one (accepts : Char → Bool)
  | empty
  | seq (p q : Pattern)
  /-- `p|q`. -/
  | or (p q : Pattern)
  /-- `p*`. -/
  | star (p : Pattern)
  /-- `(?P<name>p)`. -/
  | group (name : String) (p : Pattern)
  /-- `^`. -/
  | atStart
  /-- `$`. -/
  | atEnd
  /-- `(?<!c)`, for one character of a class. -/
  | notBehind (accepts : Char → Bool)
  /-- `(?!c)`, for one character of a class. -/
  | notAhead (accepts : Char → Bool)

/-- A position in a text, and the groups captured on the way to it. -/
structure Cursor where
  behind : Option Char := none
  ahead : Text
  groups : List (String × Text) := []

namespace Cursor

/-- `match.group(name)`. -/
def group (s : Cursor) (name : String) : Option Text :=
  (s.groups.find? fun g => g.1 = name).map Prod.snd

/-- The text between a position and a later one. -/
def read (s s' : Cursor) : Text := s.ahead.take (s.ahead.length - s'.ahead.length)

end Cursor

namespace Pattern

/-- As many repetitions of a step as possible, then fewer; an empty repetition ends the loop. -/
def repeated (step : Cursor → List Cursor) : ℕ → Cursor → List Cursor
  | 0, s => [s]
  | n + 1, s =>
    ((step s).filter (·.ahead.length < s.ahead.length)).flatMap (repeated step n) ++ [s]

/-- The positions behind a match, in the order the engine finds them. -/
def run : Pattern → Cursor → List Cursor
  | one accepts, s =>
    match s.ahead with
    | [] => []
    | c :: cs => if accepts c then [{ s with behind := some c, ahead := cs }] else []
  | empty, s => [s]
  | seq p q, s => (p.run s).flatMap q.run
  | or p q, s => p.run s ++ q.run s
  | star p, s => repeated p.run s.ahead.length s
  | group name p, s =>
    (p.run s).map fun s' => { s' with groups := (name, s.read s') :: s'.groups }
  | atStart, s => if s.behind = none then [s] else []
  | atEnd, s => if s.ahead = [] ∨ s.ahead = ['\n'] then [s] else []
  | notBehind accepts, s => if s.behind.any accepts then [] else [s]
  | notAhead accepts, s => if s.ahead.head?.any accepts then [] else [s]

/-- `p.fullmatch(text)`. -/
def fullmatch (p : Pattern) (text : Text) : Option Cursor :=
  (p.run { ahead := text }).find? (·.ahead = [])

/-- `p.search(text)` behind the character `behind`. -/
def searchFrom (p : Pattern) : Option Char → Text → Option Cursor
  | behind, [] => (p.run { behind, ahead := [] }).head?
  | behind, c :: cs =>
    match (p.run { behind, ahead := c :: cs }).head? with
    | some s => some s
    | none => searchFrom p (some c) cs

/-- `p.search(text)`. -/
def search (p : Pattern) (text : Text) : Option Cursor := p.searchFrom none text

/-- The matches of `p.finditer(text)` behind the character `behind`, for a pattern without
empty matches; there are no more of them than characters. -/
def findAllFrom (p : Pattern) : ℕ → Option Char → Text → List Cursor
  | 0, _, _ => []
  | n + 1, behind, t =>
    match p.searchFrom behind t with
    | none => []
    | some s => s :: findAllFrom p n s.behind s.ahead

/-- `p.finditer(text)`. -/
def findAll (p : Pattern) (text : Text) : List Cursor := p.findAllFrom text.length none text

/-! ### Compound patterns -/

/-- A sequence of patterns. -/
def all (ps : List Pattern) : Pattern := ps.foldr seq empty

/-- `p+`. -/
def plus (p : Pattern) : Pattern := seq p (star p)

/-- `p?`. -/
def optional (p : Pattern) : Pattern := or p empty

/-- The lower case a character is compared in under `re.IGNORECASE`; three Latin letters have
partners outside ASCII. -/
def ignoreCase (c : Char) : Char :=
  if c.toNat = 0x130 ∨ c.toNat = 0x131 then 'i'
  else if c.toNat = 0x17f then 's'
  else if c.toNat = 0x212a then 'k'
  else asciiLower c

/-- A literal text under `re.IGNORECASE`. -/
def word (text : String) : Pattern :=
  all (text.toList.map fun a => one fun c => ignoreCase c == ignoreCase a)

/-- A literal text. -/
def exactly (text : String) : Pattern := all (text.toList.map fun a => one fun c => c == a)

/-- `\s*`. -/
def spaces : Pattern := star (one isSpace)

/-- `\s+`. -/
def someSpace : Pattern := plus (one isSpace)

/-- `\d`. -/
def digit : Pattern := one fun c => isAsciiDigit (asciiDigit c)

/-- `[A-Za-z]` under `re.IGNORECASE`. -/
def isLetter (c : Char) : Bool := isAsciiLetter (ignoreCase c)

end Pattern

/-- A match takes the longest repetition, and a group keeps what its part of the match read. -/
example :
    let p := Pattern.all [.word "ab", .group "n" (.plus .digit), .optional (.exactly "1")]
    (p.search "xAB211".toList).bind (·.group "n") = some "211".toList ∧
      p.search "xab".toList = none := by
  decide +kernel

end Python
end OpenFoamAgent
