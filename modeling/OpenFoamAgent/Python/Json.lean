/-
# JSON values

The values that `json.dumps` writes and that `model_dump(mode="json")` gives: reading a
key, replacing one, the indented text of a prompt and the canonical text of a hash.

The entries of an object stand in the order in which the interpreter holds them, each key
once. A number is held as it is written. What the modelled code reads as a text or a list
is one by the schemas; any other value is a `TypeError` here.
-/
import OpenFoamAgent.Library.Traversal
import OpenFoamAgent.Python.Text

namespace OpenFoamAgent
namespace Python

/-- A JSON value. -/
inductive Json where
  | null
  | bool (b : Bool)
  | number (t : Text)
  | str (t : Text)
  | list (items : List Json)
  | dict (entries : List (Text × Json))

/-- The exceptions, by their class. -/
inductive PythonError where
  | value | key | type | attribute | runtime
  deriving DecidableEq

namespace Json

/-! ### Reading -/

/-- The value of a key among the entries of an object. -/
def lookup (entries : List (Text × Json)) (key : String) : Option Json :=
  (entries.find? (·.1 = key.toList)).map (·.2)

/-- `value[key]`. -/
def item (value : Json) (key : String) : Except PythonError Json :=
  match value with
  | dict entries => match lookup entries key with
    | some x => .ok x
    | none => .error .key
  | _ => .error .type

/-- `value.get(key, default)`. -/
def getD (value : Json) (key : String) (default : Json) : Except PythonError Json :=
  match value with
  | dict entries => .ok ((lookup entries key).getD default)
  | _ => .error .attribute

/-- The elements of a list. -/
def items : Json → Except PythonError (List Json)
  | list xs => .ok xs
  | _ => .error .type

def text : Json → Except PythonError Text
  | str t => .ok t
  | _ => .error .type

/-- The texts of a list of texts. -/
def texts (value : Json) : Except PythonError (List Text) := do
  (← value.items).mapM text

/-- The entries of an object. -/
def entries : Json → Except PythonError (List (Text × Json))
  | dict es => .ok es
  | _ => .error .attribute

/-- `bool(value)`. -/
def truthy : Json → Bool
  | null => false
  | bool b => b
  | number t => t ≠ "0".toList ∧ t ≠ "0.0".toList ∧ t ≠ "-0.0".toList
  | str t => t ≠ []
  | list xs => ¬ xs.isEmpty
  | dict es => ¬ es.isEmpty

def isDict : Json → Bool
  | dict _ => true
  | _ => false

/-- The value is one of the texts. -/
def isOneOf (value : Json) (ts : List Text) : Bool :=
  match value with
  | str t => t ∈ ts
  | _ => false

/-- `list(ts)`, as a value. -/
def ofTexts (ts : List Text) : Json := list (ts.map str)

/-- `len(xs)`, as a value. -/
def ofNat (n : ℕ) : Json := number (Nat.repr n).toList

/-! ### Writing -/

/-- `entries[key] = value`. -/
def set (key : String) (value : Json) : List (Text × Json) → List (Text × Json)
  | [] => [(key.toList, value)]
  | e :: es => if e.1 = key.toList then (key.toList, value) :: es else e :: set key value es

/-- `entries.update(items)`. -/
def update (entries : List (Text × Json)) (items : List (String × Json)) : List (Text × Json) :=
  items.foldl (fun es e => set e.1 e.2 es) entries

/-- `{key: value, …}` with distinct keys. -/
def object (items : List (String × Json)) : Json := dict (items.map fun e => (e.1.toList, e.2))

theorem lookup_set_self (es : List (Text × Json)) (key : String) (value : Json) :
    lookup (set key value es) key = some value := by
  induction es with
  | nil => simp [set, lookup]
  | cons e es ih =>
    unfold set
    split_ifs with h
    · simp [lookup]
    · rw [lookup, List.find?_cons_of_neg (by simpa using h)]
      exact ih

theorem lookup_set_of_ne (es : List (Text × Json)) {key key' : String} (value : Json)
    (h : key' ≠ key) : lookup (set key value es) key' = lookup es key' := by
  have hne : key.toList ≠ key'.toList := fun e => h (String.toList_injective e).symm
  induction es with
  | nil => simp [set, lookup, hne]
  | cons e es ih =>
    unfold set
    split_ifs with he
    · rw [lookup, lookup, List.find?_cons_of_neg (by simpa using hne),
        List.find?_cons_of_neg (by simpa [he] using hne)]
    · by_cases hkey : e.1 = key'.toList
      · rw [lookup, lookup, List.find?_cons_of_pos (by simpa using hkey),
          List.find?_cons_of_pos (by simpa using hkey)]
      · rw [lookup, lookup, List.find?_cons_of_neg (by simpa using hkey),
          List.find?_cons_of_neg (by simpa using hkey)]
        exact ih

theorem lookup_object (items : List (String × Json)) (key : String) :
    lookup (items.map fun e => (e.1.toList, e.2)) key =
      (items.find? (·.1 = key)).map (·.2) := by
  rw [lookup, List.find?_map, Option.map_map]
  refine congrArg (Option.map _) (congrArg (List.find? · items) (funext fun e => ?_))
  exact decide_eq_decide.2 String.toList_inj

theorem texts_ofTexts (ts : List Text) : (ofTexts ts).texts = .ok ts := by
  change (ts.map str).mapM text = .ok ts
  induction ts with
  | nil => rfl
  | cons t ts ih =>
    rw [List.map_cons, List.mapM_cons, ih]
    rfl

/-! ### `json.dumps` -/

/-- One of the sixteen hexadecimal digits. -/
def hexDigit (n : ℕ) : Char := if n < 10 then Char.ofNat (48 + n) else Char.ofNat (87 + n)

/-- The escape of a character, with `ensure_ascii=False`. -/
def escapeChar (c : Char) : Text :=
  if c = '"' then ['\\', '"']
  else if c = '\\' then ['\\', '\\']
  else if 0x20 ≤ c.toNat then [c]
  else if c = '\n' then ['\\', 'n']
  else if c = '\r' then ['\\', 'r']
  else if c = '\t' then ['\\', 't']
  else if c.toNat = 0x0c then ['\\', 'f']
  else if c.toNat = 0x08 then ['\\', 'b']
  else ['\\', 'u', '0', '0', hexDigit (c.toNat / 16), hexDigit (c.toNat % 16)]

/-- A text between its quotes. -/
def quote (t : Text) : Text := '"' :: t.flatMap escapeChar ++ ['"']

/-- A line break and the indentation of a level. -/
def newline (level : ℕ) : Text := '\n' :: List.replicate (2 * level) ' '

mutual

/-- `json.dumps(value, ensure_ascii=False, indent=2)`, at a level of indentation. -/
def dumpsAt (level : ℕ) : Json → Text
  | null => "null".toList
  | bool true => "true".toList
  | bool false => "false".toList
  | number t => t
  | str t => quote t
  | list [] => "[]".toList
  | list (x :: xs) =>
    ['[' :: newline (level + 1), dumpsAt (level + 1) x, dumpsItems (level + 1) xs,
      newline level, [']']].flatten
  | dict [] => ['{', '}']
  | dict ((key, x) :: es) =>
    ['{' :: newline (level + 1), quote key, [':', ' '], dumpsAt (level + 1) x,
      dumpsEntries (level + 1) es, newline level, ['}']].flatten

/-- The further items of a list. -/
def dumpsItems (level : ℕ) : List Json → Text
  | [] => []
  | x :: xs => [',' :: newline level, dumpsAt level x, dumpsItems level xs].flatten

/-- The further entries of an object. -/
def dumpsEntries (level : ℕ) : List (Text × Json) → Text
  | [] => []
  | (key, x) :: es =>
    [',' :: newline level, quote key, [':', ' '], dumpsAt level x, dumpsEntries level es].flatten

end

/-- `json.dumps(value, ensure_ascii=False, indent=2)`. -/
def dumps (value : Json) : Text := dumpsAt 0 value

/-- The texts are in the order of their code points. -/
def keyLe : Text → Text → Bool
  | [], _ => true
  | _ :: _, [] => false
  | c :: s, d :: t => c.toNat < d.toNat || c.toNat = d.toNat && keyLe s t

/-- An entry into its place among the sorted ones. -/
def insertEntry (e : Text × Text) : List (Text × Text) → List (Text × Text)
  | [] => [e]
  | e' :: es => if keyLe e.1 e'.1 then e :: e' :: es else e' :: insertEntry e es

mutual

/-- `json.dumps(value, sort_keys=True, ensure_ascii=False, separators=(",", ":"))`. -/
def dumpsSorted : Json → Text
  | null => "null".toList
  | bool true => "true".toList
  | bool false => "false".toList
  | number t => t
  | str t => quote t
  | list xs => '[' :: List.intercalate [','] (sortedItems xs) ++ [']']
  | dict es =>
    '{' :: List.intercalate [',']
      ((sortedEntries es).map fun e => quote e.1 ++ ':' :: e.2) ++ ['}']

def sortedItems : List Json → List Text
  | [] => []
  | x :: xs => dumpsSorted x :: sortedItems xs

def sortedEntries : List (Text × Json) → List (Text × Text)
  | [] => []
  | (key, x) :: es => insertEntry (key, dumpsSorted x) (sortedEntries es)

end

end Json
end Python
end OpenFoamAgent
