/-
# The FoamFile header

`tools/foam_file.py`: the header that the serializer writes in front of a typed
dictionary (`resolveFoamFileContract`, `renderFoamFileHeader`). The class of an initial
field is inferred from the entry `internalField` (`inferFieldClassFromEntries`).
-/
import OpenFoamAgent.Engineering.Dispatch
import OpenFoamAgent.Engineering.ExecutionScopes
import OpenFoamAgent.Python.Regex
import OpenFoamAgent.Verification.FoamSemantics
import OpenFoamAgent.Verification.LineReader

namespace OpenFoamAgent
namespace Tools

open Python Schemas Engineering Verification Workspace

/-! ### Field classes -/

/-- The classes that `_FIELD_CLASS_RE` matches. -/
def fieldClasses : List Text :=
  ["vol", "surface", "point"].flatMap fun mesh =>
    ["Scalar", "Vector", "SphericalTensor", "SymmTensor", "Tensor"].map fun value =>
      (mesh ++ value ++ "Field").toList

/-- `is_field_class`. -/
def isFieldClass (className : Text) : Bool := strip className ∈ fieldClasses

/-- The group of `^(?:vol|surface|point)(.+Field)$`. -/
def valueShape (className : Text) : Option Text :=
  (["vol", "surface", "point"].find? fun mesh => mesh.toList.isPrefixOf className).bind fun mesh =>
    let shape := className.drop mesh.length
    if "Field".toList.isSuffixOf shape ∧ 5 < shape.length ∧ '\n' ∉ shape then some shape else none

/-- `field_classes_value_compatible`. -/
def fieldClassesValueCompatible (left right : Text) : Bool :=
  match valueShape (strip left), valueShape (strip right) with
  | some a, some b => a == b
  | _, _ => false

/-! ### Inference -/

/-- `_NUMBER_RE`. -/
def numberRe : Pattern :=
  let sign := .optional (.one fun c => c == '+' || c == '-')
  let digits := .star .digit
  .all [sign,
    .or (.all [.plus .digit, .optional (.seq (.exactly ".") digits)])
      (.seq (.exactly ".") (.plus .digit)),
    .optional (.all [.one fun c => c == 'e' || c == 'E', sign, .plus .digit])]

/-- `_NUMBER_RE.fullmatch(text)`. -/
def isNumber (text : Text) : Bool := (numberRe.fullmatch text).isSome

/-- `_value_kind_to_vol_class`. -/
def valueKindToVolClass (kind : Text) : Option Text :=
  List.lookup (casefold kind) <|
    [("scalar", "volScalarField"), ("vector", "volVectorField"),
      ("sphericaltensor", "volSphericalTensorField"), ("symmtensor", "volSymmTensorField"),
      ("tensor", "volTensorField")].map fun item => (item.1.toList, item.2.toList)

/-- The classes of a uniform value by the number of its components. -/
def uniformClass : ℕ → Option Text
  | 1 => some "volSphericalTensorField".toList
  | 3 => some "volVectorField".toList
  | 6 => some "volSymmTensorField".toList
  | 9 => some "volTensorField".toList
  | _ => none

/-- The group of `_UNIFORM_RE.match`, for a text without white space at its ends. -/
def uniformPayload (rendered : Text) : Option Text :=
  let tail := rendered.drop 7
  if "uniform".toList.isPrefixOf rendered ∧ tail.head?.any isSpace then
    some (tail.dropWhile isSpace)
  else none

section
-- the class `\w` of the `re` module: outside ASCII it is a table of the standard library
variable (isWord : Char → Bool)

/-- `_NONUNIFORM_RE`; `>?\b` holds behind a kind when no word character follows it. -/
def nonuniformRe : Pattern :=
  .all [.notBehind isWord, .word "nonuniform", .someSpace, .optional (.word "List<"),
    .group "kind" (.or (.word "scalar") (.or (.word "vector") (.or (.word "sphericalTensor")
      (.or (.word "symmTensor") (.word "tensor"))))),
    .notAhead isWord]

/-- `infer_field_class_from_value`. -/
def inferFieldClassFromValue (value : Text) : Option Text :=
  let rendered := strip ((strip value).rdropWhile (· == ';'))
  match ((nonuniformRe isWord).search rendered).bind (·.group "kind") with
  | some kind => valueKindToVolClass kind
  | none =>
    (uniformPayload rendered).bind fun payload =>
      if isNumber payload then some "volScalarField".toList
      else if payload.head? = some '(' ∧ payload.getLast? = some ')' then
        let atoms := words (payload.drop 1).dropLast
        if atoms.all isNumber then uniformClass atoms.length else none
      else none

/-- `infer_field_class_from_entries`. -/
def inferFieldClassFromEntries (entries : List FoamDictionaryEntry) : Option Text :=
  (entries.find? fun entry => entry.path = "internalField".toList).bind fun entry =>
    inferFieldClassFromValue isWord entry.value

end

/-! ### The header of a typed dictionary -/

/-- `FoamFileContract`. -/
structure FoamFileContract where
  path : Text
  className : Text
  objectName : Text
  location : Text
  format : Text := "ascii".toList
  version : Text := "2.0".toList
  deriving DecidableEq

/-- `FoamFileContractError`: what is refused, with the values its message names. -/
inductive FoamFileContractError where
  | unsafePath (path : Text)
  /-- A raw FoamFile block. -/
  | rawHeader
  | unsupportedKey (path : Text)
  | unsafeClass (className : Text)
  | notFieldClass (path className : Text)
  /-- The class conflicts with the shape of `internalField`. -/
  | shape (className inferred path : Text)
  /-- The class of an initial field cannot be proved. -/
  | unproved (path : Text)
  | object (declared objectName path : Text)
  | location (declared location path : Text)
  | format (declared : Text)
  | legacyClass (declared className : Text)
  deriving DecidableEq

/-- `_normalize_case_path`. -/
def normalizeCasePath (path : Text) : Except FoamFileContractError Text :=
  let value := (strip path).map fun c => if c = '\\' then '/' else c
  if value = [] ∨ value.head? = some '/' ∨ "..".toList ∈ pathParts value then
    .error (.unsafePath path)
  else .ok (posixText value)

/-- `PurePosixPath(path).parent` of a relative path, empty where that is `.`. -/
def caseLocation (path : Text) : Text := asPosix (pathParts path).dropLast

/-- `_clean_header_value`. -/
def cleanHeaderValue (value : Text) : Text :=
  let rendered := strip ((strip value).rdropWhile (· == ';'))
  strip <| if 2 ≤ rendered.length ∧ rendered.head? = rendered.getLast? ∧ rendered.head?.any isQuote
    then (rendered.drop 1).dropLast else rendered

/-- The lower case of a character, as far as it is in ASCII. -/
def lowerCase (c : Char) : Char := if c.toNat = 0x212a then 'k' else asciiLower c

/-- `" ".join(value.strip().lower().split())` is the marker of a container. -/
def isContainerMarker (value : Text) : Bool :=
  ["\x7b\x7d", "\x7b \x7d", "\x7b\n\x7d", "block", "dictionary"].any fun marker =>
    List.intercalate [' '] (words (value.map lowerCase)) == marker.toList

/-- The keys of a header. -/
def headerKeys : List Text := ["version", "format", "class", "location", "object"].map String.toList

/-- One turn of the loop of `resolve_foam_file_contract` over the entries. -/
def readLegacy (read : Dict Text Text × List FoamDictionaryEntry) (entry : FoamDictionaryEntry) :
    Except FoamFileContractError (Dict Text Text × List FoamDictionaryEntry) :=
  if entry.path = "FoamFile".toList then
    if isContainerMarker entry.value then .ok read else .error .rawHeader
  else if "FoamFile.".toList.isPrefixOf entry.path then
    let key := entry.path.drop 9
    if key ∈ headerKeys then .ok (read.1.insert key (cleanHeaderValue entry.value), read.2)
    else .error (.unsupportedKey entry.path)
  else .ok (read.1, read.2 ++ [entry])

/-- A value that is declared and not the given one: `legacy.get(key) and legacy[key] != value`. -/
def conflicting (legacy : Dict Text Text) (key : String) (value : Text) : Option Text :=
  (legacy.get key.toList).filter fun declared => declared != [] && declared != value

section
variable (isWord : Char → Bool)

/-- The class of a file: the part of `resolve_foam_file_contract` from `declared_class` on. -/
def resolveClass (path declared : Text) (body : List FoamDictionaryEntry) :
    Except FoamFileContractError Text :=
  if declared ≠ [] ∧ !isClassName declared then .error (.unsafeClass declared)
  else if path.takeWhile (· ≠ '/') = ['0'] then
    let inferred := inferFieldClassFromEntries isWord body
    if declared ≠ [] then
      if !isFieldClass declared then .error (.notFieldClass path declared)
      else
        match inferred with
        | some inferred =>
          if inferred ≠ [] ∧ inferred ≠ declared ∧ !fieldClassesValueCompatible declared inferred then
            .error (.shape declared inferred path)
          else .ok declared
        | none => .ok declared
    else
      match inferred with
      | some inferred => .ok inferred
      | none => .error (.unproved path)
  else .ok (if declared = [] then "dictionary".toList else declared)

/-- `resolve_foam_file_contract`: the contract, and the entries outside the header. -/
def resolveFoamFileContract (path : Text) (entries : List FoamDictionaryEntry)
    (explicitClass : Option Text) :
    Except FoamFileContractError (FoamFileContract × List FoamDictionaryEntry) := do
  let path ← normalizeCasePath path
  let objectName := purePosixName path
  let location := caseLocation path
  let (legacy, body) ← entries.foldlM readLegacy (∅, [])
  let explicit := strip (explicitClass.getD [])
  let declared := if explicit = [] then (legacy.get "class".toList).getD [] else explicit
  let className ← resolveClass isWord path declared body
  if let some declared := conflicting legacy "object" objectName then
    throw (.object declared objectName path)
  if let some declared := conflicting legacy "location" location then
    throw (.location declared location path)
  if let some declared := conflicting legacy "format" "ascii".toList then throw (.format declared)
  if let some declared := conflicting legacy "class" className then
    throw (.legacyClass declared className)
  return ({ path, className, objectName, location }, body)

end

/-- `render_foam_file_header`. -/
def renderFoamFileHeader (contract : FoamFileContract) : Text :=
  let locationLine := if contract.location = [] then []
    else "    location \"".toList ++ contract.location ++ "\";\n".toList
  "FoamFile\n\x7b\n".toList ++ "    version ".toList ++ contract.version ++ ";\n".toList ++
    "    format ".toList ++ contract.format ++ ";\n".toList ++
    "    class ".toList ++ contract.className ++ ";\n".toList ++ locationLine ++
    "    object ".toList ++ contract.objectName ++ ";\n".toList ++ "\x7d\n".toList

end Tools
end OpenFoamAgent
