/-
# Transport schemas

`llm/structured_schema.py`: the JSON schema of a Pydantic model is checked and rewritten for
the transport it goes to. `_normalize_prefix_items` turns the positional schemas of a tuple into
one item schema, and `_compile_openai_strict` drops the defaults, lists every declared property
as required and forbids all others.

Both go through the schema as through any JSON value. A mapping from names to schemas, as
`properties` and `$defs` are, is treated as if it were a schema itself.
-/
import OpenFoamAgent.Python.Json

namespace OpenFoamAgent
namespace Llm

open Python
open Json (lookup)

/-! ### Entries of an object -/

/-- `entries.pop(key, None)`, of what is left. -/
def pop (key : String) (es : List (Text × Json)) : List (Text × Json) :=
  es.filter fun e => e.1 ≠ key.toList

/-- The entries with a function applied to their values. -/
def mapValues (f : Json → Json) (es : List (Text × Json)) : List (Text × Json) :=
  es.map fun e => (e.1, f e.2)

mutual

/-- `==` of two values: the order of the entries of an object does not count. Numbers are
compared as they are written. -/
def sameJson : Json → Json → Bool
  | .null, .null => true
  | .bool a, .bool b => a == b
  | .number s, .number t => s == t
  | .str s, .str t => s == t
  | .list xs, .list ys => sameItems xs ys
  | .dict es, .dict fs => es.length == fs.length && sameEntries es fs
  | _, _ => false

def sameItems : List Json → List Json → Bool
  | [], [] => true
  | x :: xs, y :: ys => sameJson x y && sameItems xs ys
  | _, _ => false

def sameEntries : List (Text × Json) → List (Text × Json) → Bool
  | [], _ => true
  | (key, value) :: es, fs =>
    (match fs.find? (·.1 = key) with
      | some f => sameJson value f.2
      | none => false) && sameEntries es fs

end

/-! ### The checks -/

/-- `f"{path}.{key}"` -/
def keyPath (path key : Text) : Text := path ++ ['.'] ++ key

/-- `f"{path}[{index}]"` -/
def indexPath (path : Text) (index : ℕ) : Text :=
  path ++ ['['] ++ (Nat.repr index).toList ++ [']']

mutual

/-- The paths of the objects for whose entries `bad` holds: the walk of `_dynamic_object_paths`
and of `_keyword_paths`. -/
def objectPaths (bad : List (Text × Json) → Bool) (path : Text) : Json → List Text
  | .dict es => (if bad es then [path] else []) ++ entryPaths bad path es
  | .list xs => itemPaths bad path 0 xs
  | _ => []

def itemPaths (bad : List (Text × Json) → Bool) (path : Text) : ℕ → List Json → List Text
  | _, [] => []
  | index, x :: xs =>
    objectPaths bad (indexPath path index) x ++ itemPaths bad path (index + 1) xs

def entryPaths (bad : List (Text × Json) → Bool) (path : Text) : List (Text × Json) → List Text
  | [] => []
  | (key, value) :: es => objectPaths bad (keyPath path key) value ++ entryPaths bad path es

end

/-- `additional is True or isinstance(additional, dict)` -/
def openObject (es : List (Text × Json)) : Bool :=
  match lookup es "additionalProperties" with
  | some (.bool true) => true
  | some (.dict _) => true
  | _ => false

/-- `_dynamic_object_paths` -/
def dynamicObjectPaths (value : Json) : List Text := objectPaths openObject ['$'] value

/-- `_keyword_paths` -/
def keywordPaths (value : Json) (keyword : String) : List Text :=
  objectPaths (fun es => (lookup es keyword).isSome) ['$'] value

/-- `", ".join(paths)` -/
def joinPaths (paths : List Text) : Text := ", ".toList.intercalate paths

/-- `validate_structured_output_schema`, of the schema of the model `name`: the text that it
raises with. -/
def validateStructuredOutputSchema (name : Text) (schema : Json) : Except Text Unit :=
  if dynamicObjectPaths schema ≠ [] then
    .error (name ++ " contains arbitrary-key object fields at ".toList ++
      joinPaths (dynamicObjectPaths schema) ++
      (". Strict Structured Outputs requires fixed object keys; model these " ++
        "fields as lists of key/value objects instead.").toList)
  else if keywordPaths schema "oneOf" ≠ [] then
    .error (name ++ " contains unsupported `oneOf` at ".toList ++
      joinPaths (keywordPaths schema "oneOf") ++
      (". Use a plain Union that emits nested `anyOf` instead of a " ++
        "discriminated union.").toList)
  else
    match schema with
    | .dict es =>
      match lookup es "anyOf", lookup es "type" with
      | none, some (.str kind) =>
        if kind = "object".toList then .ok ()
        else .error (name ++ " must have an object root without root-level `anyOf`.".toList)
      | _, _ => .error (name ++ " must have an object root without root-level `anyOf`.".toList)
    | _ => .error (name ++ " must have an object root without root-level `anyOf`.".toList)

/-! ### Tuples -/

/-- `_dedupe_schemas`, of values that stand for schemas. -/
def dedupeSchemas {α : Type} (schema : α → Json) (values : List α) : List α :=
  values.foldl (fun unique value =>
    if unique.any fun u => sameJson (schema u) (schema value) then unique
    else unique ++ [value]) []

/-- A schema as it stands and normalized: the code copies the former and normalizes the copy
later, which gives the latter. -/
abbrev Copied := Json × Json

/-- `{"anyOf": schemas}`, as it stands and normalized. -/
def anyOfCopied (schemas : List Copied) : Copied :=
  (Json.object [("anyOf", .list (schemas.map Prod.fst))],
    Json.object [("anyOf", .list (schemas.map Prod.snd))])

/-- `_tuple_items_superset` -/
def tupleItemsSuperset (prefixItems : List Copied) : Copied :=
  match prefixItems with
  | [] => (.dict [], .dict [])
  | _ =>
    match dedupeSchemas Prod.fst prefixItems with
    | [schema] => schema
    | unique => anyOfCopied unique

/-- The `items` of an object whose `prefixItems` are `prefixItems`, where they are replaced. -/
def tupleItems (prefixItems : List Copied) (existing : Option Copied) : Option Json :=
  match existing with
  | none => some (tupleItemsSuperset prefixItems).2
  | some (.null, _) => some (tupleItemsSuperset prefixItems).2
  | some (.bool _, _) => some (tupleItemsSuperset prefixItems).2
  | some (.dict es, normalized) =>
    some (anyOfCopied (dedupeSchemas Prod.fst
      [tupleItemsSuperset prefixItems, (.dict es, normalized)])).2
  | _ => none

/-- The value of a key as it stands and normalized. -/
def copiedAt (es normalized : List (Text × Json)) (key : String) : Option Copied :=
  (lookup es key).bind fun value => (lookup normalized key).map fun value' => (value, value')

/-- The positional schemas are replaced; `normalized` are the entries `es` with their values
normalized. -/
def replaceTuple (es normalized : List (Text × Json)) : List (Text × Json) :=
  let rest := pop "prefixItems" normalized
  match copiedAt es normalized "prefixItems" with
  | some (.list schemas, .list schemas') =>
    match tupleItems (schemas.zip schemas') (copiedAt es normalized "items") with
    | some items => Json.set "items" items rest
    | none => rest
  | _ => rest

mutual

/-- `_normalize_prefix_items` -/
def normalizePrefixItems : Json → Json
  | .list xs => .list (normalizeItems xs)
  | .dict es => .dict (replaceTuple es (normalizeEntries es))
  | value => value

def normalizeItems : List Json → List Json
  | [] => []
  | x :: xs => normalizePrefixItems x :: normalizeItems xs

def normalizeEntries : List (Text × Json) → List (Text × Json)
  | [] => []
  | (key, value) :: es => (key, normalizePrefixItems value) :: normalizeEntries es

end

/-! ### Strict objects -/

/-- What is done with the entries `es` of an object itself; `compiled` are the same entries with
their values compiled. -/
def strictEntries (es compiled : List (Text × Json)) : List (Text × Json) :=
  let rest := pop "default" compiled
  match lookup es "properties" with
  | some (.dict ps) =>
    Json.set "additionalProperties" (.bool false)
      (Json.set "required" (Json.ofTexts (ps.map Prod.fst)) rest)
  | _ =>
    match lookup es "type", lookup rest "additionalProperties" with
    | some (.str kind), none =>
      if kind = "object".toList then Json.set "additionalProperties" (.bool false) rest else rest
    | _, _ => rest

mutual

/-- `_compile_openai_strict` -/
def compileOpenaiStrict : Json → Json
  | .list xs => .list (compileItems xs)
  | .dict es => .dict (strictEntries es (compileEntries es))
  | value => value

def compileItems : List Json → List Json
  | [] => []
  | x :: xs => compileOpenaiStrict x :: compileItems xs

def compileEntries : List (Text × Json) → List (Text × Json)
  | [] => []
  | (key, value) :: es => (key, compileOpenaiStrict value) :: compileEntries es

end

/-- `TransportBackend` -/
inductive TransportBackend where
  | canonical | claude | codex
  deriving DecidableEq

/-- The rewriting for a transport. -/
def transportSchema : TransportBackend → Json → Json
  | .canonical, schema => schema
  | .claude, schema => normalizePrefixItems schema
  | .codex, schema => compileOpenaiStrict (normalizePrefixItems schema)

/-- `compile_transport_schema`, of the schema of the model `name`. -/
def compileTransportSchema (name : Text) (schema : Json) (backend : TransportBackend) :
    Except Text Json :=
  (validateStructuredOutputSchema name schema).map fun _ => transportSchema backend schema

end Llm
end OpenFoamAgent
