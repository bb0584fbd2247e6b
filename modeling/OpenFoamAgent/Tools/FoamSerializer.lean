/-
# The serializer of typed dictionaries

`serialize_foam_dictionary` of `tools/foam_serializer.py`: the entries of a typed
file, by dotted path, become nested dictionaries (`Mapping.insert`), and these
become lines (`Mapping.render`) behind the header of the file.

An `OrderedDict` of the source keeps its keys in the order they came in and only
grows here, so it is a list of entries: `Mapping`. `_insert` walks down such
mappings; `Mapping.insert` also walks along them, and appends where the key is
new.
-/
import OpenFoamAgent.Tools.FoamFile

namespace OpenFoamAgent
namespace Tools

open Python Schemas Verification

/-- `FoamSerializationError`: what is refused, with the values its message names. -/
inductive FoamSerializationError where
  | contract (error : FoamFileContractError)
  /-- A path is used both as a scalar and as a block. -/
  | scalarAndBlock (path child : Text)
  /-- A path goes through a scalar entry. -/
  | collides (component : Text)
  /-- A path is there already. -/
  | duplicate (path : Text)
  | emptyValue (key : Text)
  deriving DecidableEq

/-! ### Container placeholders -/

/-- The paths of the blocks around an entry. -/
def parentPaths (path : Text) : List Text :=
  ((path.splitOn '.').inits.drop 1).dropLast.map dotted

/-- The first entry below a block. -/
def firstChild (items : List FoamDictionaryEntry) (parent : Text) : Option Text :=
  (items.find? fun entry => parent ∈ parentPaths entry.path).map (·.path)

/-- One turn of the second loop of `_normalize_entries`. -/
def normalizeEntry (items normalized : List FoamDictionaryEntry) (entry : FoamDictionaryEntry) :
    Except FoamSerializationError (List FoamDictionaryEntry) :=
  match firstChild items entry.path with
  | none => .ok (normalized ++ [entry])
  | some child =>
    if isContainerMarker entry.value then .ok normalized
    else .error (.scalarAndBlock entry.path child)

/-- `_normalize_entries`. -/
def normalizeEntries (items : List FoamDictionaryEntry) :
    Except FoamSerializationError (List FoamDictionaryEntry) :=
  items.foldlM (normalizeEntry items) []

/-! ### Nested dictionaries -/

/-- An `OrderedDict` of values and of further dictionaries. -/
inductive Mapping where
  | nil
  | leaf (key value : Text) (rest : Mapping)
  | block (key : Text) (children rest : Mapping)
  deriving DecidableEq

namespace Mapping

/-- The mapping of one path. -/
def chain (leafKey value : Text) : List Text → Mapping
  | [] => leaf leafKey value nil
  | component :: components => block component (chain leafKey value components) nil

/-- `_insert` below the components of a block. -/
def insert (path leafKey value : Text) : List Text → Mapping → Except FoamSerializationError Mapping
  | components, nil => .ok (chain leafKey value components)
  | [], leaf key v rest =>
    if key = leafKey then .error (.duplicate path)
    else (insert path leafKey value [] rest).map (leaf key v)
  | [], block key children rest =>
    if key = leafKey then .error (.duplicate path)
    else (insert path leafKey value [] rest).map (block key children)
  | component :: components, leaf key v rest =>
    if key = component then .error (.collides component)
    else (insert path leafKey value (component :: components) rest).map (leaf key v)
  | component :: components, block key children rest =>
    if key = component then
      (insert path leafKey value components children).map fun children => block key children rest
    else (insert path leafKey value (component :: components) rest).map (block key children)

/-- The text of a value: a value is an expression only, and the serializer owns the `;`. -/
def renderedValue (value : Text) : Text :=
  let rendered := strip value
  if rendered.getLast? = some ';' then rendered.dropLast.rdropWhile isSpace else rendered

/-- `_render_mapping`: the lines of a mapping. -/
def render (indent : ℕ) : Mapping → Except FoamSerializationError (List Text)
  | nil => .ok []
  | leaf key value rest =>
    if strip value = [] then .error (.emptyValue key)
    else
      (rest.render indent).map fun lines =>
        (List.replicate indent ' ' ++ key ++ ' ' :: renderedValue value ++ [';']) :: lines
  | block key children rest => do
    let inner ← children.render (indent + 4)
    let lines ← rest.render indent
    let pad := List.replicate indent ' '
    return (pad ++ key) :: (pad ++ ['{']) :: (inner ++ (pad ++ ['}']) :: lines)

end Mapping

/-- `_insert`. -/
def insertEntry (root : Mapping) (entry : FoamDictionaryEntry) :
    Except FoamSerializationError Mapping :=
  let components := entry.path.splitOn '.'
  root.insert entry.path (components.getLastD []) entry.value components.dropLast

/-! ### The serializer -/

/-- `serialize_foam_dictionary`. -/
def serializeFoamDictionary (isWord : Char → Bool) (spec : TypedFoamDictionaryFile) :
    Except FoamSerializationError Text := do
  let (contract, body) ← (resolveFoamFileContract isWord spec.path spec.entries
    spec.foamClass).mapError .contract
  let entries ← normalizeEntries body
  let root ← entries.foldlM insertEntry .nil
  let lines ← root.render 0
  let body := (List.intercalate ['\n'] lines).rdropWhile isSpace
  return renderFoamFileHeader contract ++ '\n' :: body ++ ['\n']

end Tools
end OpenFoamAgent
