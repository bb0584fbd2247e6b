/-
# The content policy of case files

`CaseWorkspace._validate_content` of `tools/workspace.py` and the scanner of
`tools/dictionary_policy.py` it calls: `tokens` and `library_entries`.

The two regular expressions of `_validate_content` look behind themselves for a
word character, so `searchWord` carries the previous character. The token
expression of `dictionary_policy` is `tokenLength`: how many characters the first
alternative that matches takes.
-/
import OpenFoamAgent.Python.Text

namespace OpenFoamAgent
namespace Workspace

open Python

/-- Why a content is refused. -/
inductive ContentError where
  /-- `{path} contains executable/unsafe directives: …` -/
  | unsafeDirectives (directives : List Text)
  /-- `libs requires an explicit parenthesized library list.` -/
  | libsNotAList
  /-- `Dynamic, path-based, or malformed library names are forbidden.` -/
  | libraryName
  /-- `Malformed libs entry.` -/
  | libsMalformed
  /-- `{path} requests non-allowlisted libraries: …` -/
  | unknownLibraries (names : List Text)
  deriving DecidableEq

/-- `_FORBIDDEN_CONTENT`. -/
def forbiddenContent : List Text :=
  ["#codestream".toList, "#calc".toList, "#include".toList, "#includeetc".toList,
    "dynamiccode".toList, "codedfixedvalue".toList, "codemixed".toList,
    "codedfunctionobject".toList, "codedsource".toList, "systemcall".toList,
    "functionentry::".toList, "codeinclude".toList, "codeoptions".toList, "codelibs".toList]

/-- `re.search` of a pattern that must not follow a word character `[A-Za-z0-9_]`. -/
def searchWord (matchesAt : Text → Bool) : Option Char → Text → Bool
  | _, [] => false
  | previous, c :: cs =>
    (!(previous.any isAsciiWord) && matchesAt (c :: cs)) || searchWord matchesAt (some c) cs

/-- `system\s*\(` at the start of the text. -/
def systemCallAt (t : Text) : Bool :=
  "system".toList.isPrefixOf t &&
    ((t.drop 6).dropWhile isSpace).head? == some '('

/-- `coded[A-Za-z0-9_]*\b` at the start of the text: the word ends where no word
character follows, and a character outside ASCII may be one. -/
def codedWordAt (wordChar : Char → Bool) (t : Text) : Bool :=
  "coded".toList.isPrefixOf t &&
    !(((t.drop 5).dropWhile isAsciiWord).head?.any wordChar)

/-- The characters up to and with the first `*/`. -/
def blockLength : Text → Option ℕ
  | [] => none
  | '*' :: '/' :: _ => some 2
  | _ :: cs => (blockLength cs).map (· + 1)

def isPunctuation (c : Char) : Bool :=
  c == '{' || c == '}' || c == '(' || c == ')' || c == ';' || c == '/'

/-- The last two alternatives of the token expression: a word, or one punctuation mark. -/
def wordLength (t : Text) : ℕ :=
  match t with
  | [] => 0
  | c :: _ =>
    if isPunctuation c then 1
    else (t.takeWhile fun c => !isSpace c && !isPunctuation c).length

/-- How many characters `_TOKEN` matches at the start of the text, and whether they
are a comment. -/
def tokenLength : Text → ℕ × Bool
  | '/' :: '/' :: cs => (2 + (cs.takeWhile (· != '\n')).length, true)
  | '/' :: '*' :: cs =>
    match blockLength cs with
    | some n => (2 + n, true)
    | none => (1, false)
  | '"' :: cs =>
    match quotedLength '"' cs with
    | some n => (1 + n, false)
    | none => (wordLength ('"' :: cs), false)
  | '\'' :: cs =>
    match quotedLength '\'' cs with
    | some n => (1 + n, false)
    | none => (wordLength ('\'' :: cs), false)
  | t => (wordLength t, false)

/-- The loop of `_TOKEN.finditer`: `skip` characters belong to the last match. -/
def tokensFrom : ℕ → Text → List Text
  | _, [] => []
  | skip + 1, _ :: cs => tokensFrom skip cs
  | 0, c :: cs =>
    let (n, comment) := tokenLength (c :: cs)
    if n = 0 ∨ comment then tokensFrom (n - 1) cs
    else (c :: cs).take n :: tokensFrom (n - 1) cs

/-- `tokens`. -/
def tokens (text : Text) : List Text := tokensFrom 0 text

/-- `re.fullmatch(r"lib[A-Za-z][A-Za-z0-9_]*\.so", name)`. -/
def libraryName (name : Text) : Bool :=
  "lib".toList.isPrefixOf name && ".so".toList.isSuffixOf name && 7 ≤ name.length &&
    match (name.drop 3).rdrop 3 with
    | [] => false
    | c :: cs => isAsciiLetter c && cs.all isAsciiWord

/-- Where the loop of `library_entries` stands: between entries or inside one, or
inside a `libs` entry before its `(`, among its names, or behind its `)`. -/
inductive LibsScan where
  | entries (expectKey : Bool) (parentheses : ℕ)
  | opening
  | names
  | closing
  deriving DecidableEq

/-- `token.strip("\"'")`. -/
def unquoted (token : Text) : Text := stripBy (fun c => c == '"' || c == '\'') token

/-- The loop of `library_entries`. -/
def libraryEntriesFrom : LibsScan → List Text → Except ContentError (List Text)
  | .entries _ _, [] => .ok []
  | .opening, [] => .error .libsNotAList
  | .names, [] => .error .libsMalformed
  | .closing, [] => .error .libsMalformed
  | .entries expectKey parentheses, token :: rest =>
    if (token = ['{'] ∨ token = ['}'] ∨ token = [';']) ∧ parentheses = 0 then
      libraryEntriesFrom (.entries true parentheses) rest
    else if token = ['('] then libraryEntriesFrom (.entries expectKey (parentheses + 1)) rest
    else if token = [')'] then libraryEntriesFrom (.entries expectKey (parentheses - 1)) rest
    else if expectKey ∧ parentheses = 0 then
      if unquoted token = "libs".toList then libraryEntriesFrom .opening rest
      else libraryEntriesFrom (.entries false parentheses) rest
    else libraryEntriesFrom (.entries expectKey parentheses) rest
  | .opening, token :: rest =>
    if token = ['('] then libraryEntriesFrom .names rest else .error .libsNotAList
  | .names, token :: rest =>
    if token = [')'] then libraryEntriesFrom .closing rest
    else if libraryName (unquoted token) then
      (libraryEntriesFrom .names rest).map (unquoted token :: ·)
    else .error .libraryName
  | .closing, token :: rest =>
    if token = [';'] then libraryEntriesFrom (.entries true 0) rest else .error .libsMalformed

/-- `library_entries`. -/
def libraryEntries (text : Text) : Except ContentError (List Text) :=
  libraryEntriesFrom (.entries true 0) (tokens text)

/-- The directives `_validate_content` finds in the case-folded content. -/
def forbiddenDirectives (wordChar : Char → Bool) (content : Text) : List Text :=
  let lowered := casefold content
  forbiddenContent.filter (contains · lowered) ++
    (if searchWord systemCallAt none lowered then ["system(...)".toList] else []) ++
    (if searchWord (codedWordAt wordChar) none lowered then ["coded* runtime code".toList] else [])

/-- `CaseWorkspace._validate_content`. -/
def validateContent (wordChar : Char → Bool) (allowedLibraries : List Text) (content : Text) :
    Except ContentError Unit :=
  if forbiddenDirectives wordChar content ≠ [] then
    .error (.unsafeDirectives (forbiddenDirectives wordChar content))
  else
    match libraryEntries content with
    | .error e => .error e
    | .ok libraries =>
      if libraries.filter (· ∉ allowedLibraries) ≠ [] then
        .error (.unknownLibraries (libraries.filter (· ∉ allowedLibraries)))
      else .ok ()

/-- A plain dictionary passes; `libs`, `system(…)` and coded entries are looked into. -/
example :
    validateContent (fun _ => false) ["libforces.so".toList]
      "libs (\"libforces.so\");\ndeltaT 1; // system controls\n".toList = .ok () ∧
    validateContent (fun _ => false) [] "libs (\"libforces.so\");".toList =
      .error (.unknownLibraries ["libforces.so".toList]) ∧
    validateContent (fun _ => false) [] "a \x7b b System (\"rm\"); \x7d".toList =
      .error (.unsafeDirectives ["system(...)".toList]) := by
  decide +kernel

end Workspace
end OpenFoamAgent
