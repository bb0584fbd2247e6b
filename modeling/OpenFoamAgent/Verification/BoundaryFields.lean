/-
# The boundary fields

`verification/foam_semantics/boundary.py` with `parse_top_level_blocks` and
`parse_declared_type` of `parser.py`, and the coverage check of `_validate_region` in
`verification/presolve.py`: which entry of a `boundaryField` dictionary a patch of the
mesh gets.

The `re` module is an argument: `fullmatch pattern name` is the verdict of
`re.fullmatch`, or the text of its `re.error`.
-/
import Mathlib.Data.List.MinMax
import OpenFoamAgent.Verification.FoamSemantics

namespace OpenFoamAgent
namespace Verification
namespace Boundary

open Python Contracts Engineering

/-! ### Blocks -/

/-- `FoamEntry`. -/
structure FoamEntry where
  key : FoamKey
  body : Text
  order : ℕ
  declaredType : Text := []
  deriving DecidableEq

/-- `FoamDictionary`. -/
structure FoamDictionary where
  entries : List FoamEntry
  complete : Bool

section
-- the class `\w` of the `re` module
variable (isWord : Char → Bool)

/-- The text `[^;{}]+` behind `type`, where `_TYPE_RE` matches: `\s+` takes one blank at least and
leaves one character at least. -/
def typeDeclaration (text : Text) : Option Text :=
  let run := text.takeWhile fun c => !([';', '{', '}'].contains c)
  if run.head?.any isSpace ∧ 2 ≤ run.length ∧ (text.drop run.length).head? = some ';' then some run
  else none

/-- `_TYPE_RE.search`, behind a character. -/
def findTypeDeclaration : Option Char → Text → Option Text
  | behind, text =>
    let here :=
      if wordBoundary isWord behind text.head? ∧ "type".toList.isPrefixOf text then
        typeDeclaration (text.drop 4)
      else none
    match here, text with
    | some run, _ => some run
    | none, [] => none
    | none, c :: cs => findTypeDeclaration (some c) cs

/-- `parse_declared_type`: the first word of the declaration. -/
def parseDeclaredType (body : Text) : Text :=
  match findTypeDeclaration isWord none body with
  | none => []
  | some run => (run.dropWhile isSpace).takeWhile fun c => !isSpace c

/-- The loop of `parse_top_level_blocks`, from the number of entries so far. -/
def blocksFrom (closing : Char) : ℕ → ℕ → Text → FoamDictionary
  | 0, _, _ => ⟨[], false⟩
  | fuel + 1, order, text =>
    match text.dropWhile isSpace with
    | [] => ⟨[], false⟩
    | c :: cs =>
      if c = closing then ⟨[], true⟩
      else
        match parseKey (c :: cs) with
        | (none, rest) => blocksFrom closing fuel order rest
        | (some key, afterKey) =>
          let tail := afterKey.dropWhile isSpace
          if tail.head? = some '{' then
            match matchingBrace tail with
            | none => ⟨[⟨key, tail.drop 1, order, []⟩], false⟩
            | some brace =>
              let body := (tail.drop 1).take (brace - 1)
              let later := blocksFrom closing fuel (order + 1) (tail.drop (brace + 1))
              { later with
                entries := ⟨key, body, order, parseDeclaredType isWord body⟩ :: later.entries }
          else
            let semi := scanToStatementEnd closing tail
            -- a construct only OpenFOAM can expand is kept, another statement is passed over
            if key.patternState = .indeterminate then
              let later := blocksFrom closing fuel (order + 1) (tail.drop (semi + 1))
              { later with entries := ⟨key, tail.take semi, order, []⟩ :: later.entries }
            else blocksFrom closing fuel order (tail.drop (semi + 1))

/-- `clean.find(opener, start)`. -/
def findFrom (opener : Char) (start : ℕ) (clean : Text) : Option ℕ :=
  ((clean.drop start).findIdx? (· = opener)).map (· + start)

/-- `parse_top_level_blocks`. -/
def parseTopLevelBlocks (text : Text) (openIndex : ℕ) (closing : Char) : FoamDictionary :=
  let clean := stripComments text
  let expectedOpen := if closing = ')' then '(' else '{'
  let found := if clean[openIndex]? = some expectedOpen then some openIndex
    else findFrom expectedOpen (openIndex - 64) clean
  match found with
  | none => ⟨[], false⟩
  | some start => blocksFrom isWord closing (clean.length + 1) 0 (clean.drop (start + 1))

end

/-! ### Selectors -/

/-- `BoundarySelector`. -/
structure BoundarySelector where
  key : FoamKey
  order : ℕ
  dictionaryBody : Text
  fieldType : Text := []
  deriving DecidableEq

/-- The selectors of a dictionary, numbered in their order. -/
structure BoundarySelectors where
  entries : List BoundarySelector
  ordered : entries.Pairwise fun a b => a.order < b.order

/-- `MeshPatch`. -/
structure MeshPatch where
  name : Text
  patchType : Text := []
  groups : List Text := []
  order : ℕ := 0
  deriving DecidableEq

/-! ### The resolution -/

inductive ResolutionStatus where
  | resolved | missing | indeterminate
  deriving DecidableEq

inductive BoundaryMatchKind where
  | exact | group | autoEmpty | regex | indeterminate | none
  deriving DecidableEq

/-- `ResolutionTraceStep`. -/
structure ResolutionTraceStep where
  stage : Text
  outcome : Text
  deriving DecidableEq

/-- `BoundaryResolution`. -/
structure BoundaryResolution where
  patch : MeshPatch
  status : ResolutionStatus
  matchKind : BoundaryMatchKind
  selector : Option BoundarySelector := none
  effectiveFieldType : Text := []
  certainty : Text := "proven".toList
  trace : List ResolutionTraceStep
  reason : Text := []
  deriving DecidableEq

/-- `_resolved`. -/
def resolvedBy (patch : MeshPatch) (kind : BoundaryMatchKind) (selector : BoundarySelector)
    (trace : List ResolutionTraceStep) : BoundaryResolution where
  patch
  status := .resolved
  matchKind := kind
  selector := some selector
  effectiveFieldType := selector.fieldType
  trace

/-- A resolution Python cannot make. -/
def unresolved (patch : MeshPatch) (reason : Text) (trace : List ResolutionTraceStep) :
    BoundaryResolution where
  patch
  status := .indeterminate
  matchKind := .indeterminate
  certainty := "indeterminate".toList
  trace := trace ++ [⟨"indeterminate".toList, reason⟩]
  reason

/-- `max(selectors, key=lambda item: item.order)`. -/
def highestOrder (selectors : List BoundarySelector) : Option BoundarySelector :=
  selectors.argmax (·.order)

/-- `re.fullmatch` found a match, and raised nothing. -/
def isMatch : Except Text Bool → Bool
  | .ok found => found
  | .error _ => false

section
variable (fullmatch : Text → Text → Except Text Bool)

/-- The loop over the patterns: those that match. -/
def matchesOf (patch : MeshPatch) (patterns : List BoundarySelector) : List BoundarySelector :=
  patterns.filter fun selector => isMatch (fullmatch selector.key.value patch.name)

/-- The loop over the patterns: the errors of the others. -/
def regexErrors (patch : MeshPatch) (patterns : List BoundarySelector) : List Text :=
  patterns.filterMap fun selector =>
    match fullmatch selector.key.value patch.name with
    | .error exc => some (selector.key.raw ++ ": ".toList ++ exc)
    | .ok _ => none

/-- `BoundaryFieldInterpreter.resolve`. -/
def resolve (patch : MeshPatch) (selectors : List BoundarySelector) : BoundaryResolution :=
  let literal := selectors.filter fun s => s.key.patternState = .literal
  let patterns := selectors.filter fun s => s.key.patternState = .pattern
  let unknown := selectors.filter fun s => s.key.patternState = .indeterminate
  if unknown ≠ [] then
    unresolved patch ("unresolved dynamic selector(s): ".toList ++
      [',', ' '].intercalate (unknown.map (·.key.raw))) []
  else
    match (literal.filter fun s => s.key.value = patch.name).getLast? with
    | some selected =>
      resolvedBy patch .exact selected [⟨"exact".toList, "matched ".toList ++ selected.key.raw⟩]
    | none =>
      let trace := [⟨"exact".toList, "no explicit patch entry matched".toList⟩]
      match highestOrder (literal.filter fun s => s.key.value ∈ patch.groups) with
      | some selected =>
        resolvedBy patch .group selected
          (trace ++ [⟨"group".toList, "matched group ".toList ++ selected.key.raw⟩])
      | none =>
        let trace := trace ++ [⟨"group".toList, "no patchGroup entry matched".toList⟩]
        if patch.patchType = "empty".toList then
          { patch
            status := .resolved
            matchKind := .autoEmpty
            effectiveFieldType := "empty".toList
            trace := trace ++ [⟨"auto_empty".toList,
              "mesh patch type is empty; OpenFOAM auto-empty fallback applies".toList⟩] }
        else
          let trace := trace ++ [⟨"auto_empty".toList, "not applicable".toList⟩]
          match highestOrder (matchesOf fullmatch patch patterns) with
          | some selected =>
            resolvedBy patch .regex selected (trace ++ [⟨"regex".toList,
              "matched ".toList ++ selected.key.raw ++ "; later matching pattern wins".toList⟩])
          | none =>
            let trace := trace ++ [⟨"regex".toList, "no supported pattern matched".toList⟩]
            let errors := regexErrors fullmatch patch patterns
            if errors ≠ [] then
              unresolved patch ("pattern(s) not safely interpreted by Python: ".toList ++
                [';', ' '].intercalate errors) trace
            else
              { patch
                status := .missing
                matchKind := .none
                trace := trace ++ [⟨"missing".toList, "no selector can cover this patch".toList⟩]
                reason := "no boundaryField selector matched".toList }

/-- `BoundaryFieldInterpreter.resolve_all`: of two patches of a name the later one counts. -/
def resolveAll (patches : List MeshPatch) (selectors : List BoundarySelector) :
    Dict Text BoundaryResolution :=
  Dict.ofItems (patches.map fun patch => (patch.name, resolve fullmatch patch selectors))

/-- The names `_validate_region` reports as `missing patchField entries` of a field file. -/
def missingPatches (patches : List MeshPatch) (selectors : List BoundarySelector) : List Text :=
  (((resolveAll fullmatch patches selectors).items.filter fun item =>
    item.2.status = .missing).map Prod.fst).insertionSort (· ≤ ·)

end

end Boundary
end Verification
end OpenFoamAgent
