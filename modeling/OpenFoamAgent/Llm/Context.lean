/-
# Bounded prompts

`llm/context.py`: `build_bounded_json_prompt` writes a payload as JSON behind an
instruction. Where the prompt is longer than the budget the payload is compacted, four
times at most and harder each time, and where the last is still too long it raises before
any call of the model.

The compaction goes around the protected keys: what stands under one of them is in every
prompt as it is in the payload (`buildBoundedJsonPrompt_ok`).
-/
import OpenFoamAgent.Python.Codec
import OpenFoamAgent.Python.Json

namespace OpenFoamAgent
namespace Llm

open Python

/-- The marker of `compact_text`. -/
def compactedMarker : Text := "\n... [model-context compacted] ...\n".toList

/-- `compact_text`. Every caller leaves room for 64 characters and more. Of the room that
remains beside the marker `int(remaining * 0.6)` is three fifths, rounded down. -/
def compactText (value : Text) (maxChars : ℕ) : Text :=
  if value.length ≤ maxChars then value
  else
    let remaining := maxChars - compactedMarker.length
    let head := max 1 (remaining * 3 / 5)
    let tail := max 1 (remaining - head)
    value.take head ++ compactedMarker ++ value.drop (value.length - tail)

/-- `_PROTECTED_KEYS`. -/
def protectedKeys : List Text :=
  ["confirmed_intake", "confirmed_facts", "facts", "confirmed_intake_definition",
    "frozen_engineering_plan", "approved_plan", "engineering_plan", "plan",
    "required_case_files", "required_files", "confirmed_fact_bindings", "confirmed_fact_ids",
    "execution", "execution_approval", "region_layouts", "interfaces", "geometry",
    "geometry_data", "bindings", "current_case_files",
    "authoring_task", "authoring_contract", "assets", "physical_quantities",
    "execution_contract"].map String.toList

/-- The first and the last items of a list that is too long, and how many stood between. -/
def boundItems (listLimit : ℕ) (items : List Json) : List Json :=
  if listLimit < items.length then
    let firstCount := max 1 (listLimit / 2)
    let lastCount := max 1 (listLimit - firstCount)
    items.take firstCount ++
      Json.object [("_model_context_omitted_items",
        .ofNat (items.length - firstCount - lastCount))] ::
      items.drop (items.length - lastCount)
  else items

mutual

/-- `_compact_json_value`. The items of a list are compacted before they are bounded, which
gives the same: each is compacted by itself, and the note between them is not shortened. -/
def compactJsonValue (stringLimit listLimit : ℕ) : Json → Json
  | .str t => .str (compactText t (max 64 stringLimit))
  | .dict es => .dict (compactEntries stringLimit listLimit es)
  | .list xs => .list (boundItems listLimit (compactItems stringLimit listLimit xs))
  | .null => .null
  | .bool b => .bool b
  | .number t => .number t

def compactItems (stringLimit listLimit : ℕ) : List Json → List Json
  | [] => []
  | x :: xs => compactJsonValue stringLimit listLimit x :: compactItems stringLimit listLimit xs

def compactEntries (stringLimit listLimit : ℕ) : List (Text × Json) → List (Text × Json)
  | [] => []
  | (key, x) :: es =>
    (key, if key ∈ protectedKeys then x else compactJsonValue stringLimit listLimit x) ::
      compactEntries stringLimit listLimit es

end

/-- `PromptBuildResult`. -/
structure PromptBuildResult where
  prompt : Text
  promptChars : ℕ
  promptBytes : ℕ
  approximateTokens : ℕ
  compacted : Bool
  compactionLevel : ℕ
  deriving DecidableEq

/-- `_prompt_result`. -/
def promptResult (prompt : Text) (level : ℕ) : PromptBuildResult where
  prompt := prompt
  promptChars := prompt.length
  promptBytes := (encode prompt).length
  approximateTokens := ((encode prompt).length + 1) / 2
  compacted := 0 < level
  compactionLevel := level

/-- The limits of texts and lists at each level. -/
def levels : List (Option (ℕ × ℕ)) :=
  [none, some (4000, 80), some (2000, 48), some (1000, 24), some (500, 12)]

/-- The payload at a level. -/
def candidateAt (payload : Json) : Option (ℕ × ℕ) → Json
  | none => payload
  | some limits => compactJsonValue limits.1 limits.2 payload

/-- `build_bounded_json_prompt`. -/
def buildBoundedJsonPrompt (instruction : Text) (payload : Json) (maxChars : ℤ) :
    Except PythonError PromptBuildResult :=
  if maxChars < 4000 then .error .value
  else
    let results := levels.zipIdx.map fun level =>
      promptResult (instruction ++ (candidateAt payload level.1).dumps) level.2
    match results.find? fun result => (result.promptChars : ℤ) ≤ maxChars with
    | some result => .ok result
    | none => .error .runtime

/-! ### What a prompt shows -/

/-- An object with the same keys, and the same values under the protected ones. -/
structure Shows (payload shown : Json) : Prop where
  protects : ∀ key : String, key.toList ∈ protectedKeys → ∀ value,
    payload.item key = .ok value → shown.item key = .ok value

theorem lookup_compactEntries (stringLimit listLimit : ℕ) {key : String}
    (hkey : key.toList ∈ protectedKeys) (es : List (Text × Json)) :
    Json.lookup (compactEntries stringLimit listLimit es) key = Json.lookup es key := by
  induction es with
  | nil => rfl
  | cons e es ih =>
    obtain ⟨k, x⟩ := e
    rw [compactEntries]
    by_cases hk : k = key.toList
    · subst hk
      simp [Json.lookup, hkey]
    · rw [Json.lookup, Json.lookup, List.find?_cons_of_neg (by simpa using hk),
        List.find?_cons_of_neg (by simpa using hk)]
      exact ih

theorem shows_candidateAt (payload : Json) (level : Option (ℕ × ℕ)) :
    Shows payload (candidateAt payload level) := by
  refine ⟨fun key hkey value h => ?_⟩
  cases level with
  | none => exact h
  | some limits =>
    cases payload with
    | dict es =>
      rw [candidateAt, compactJsonValue, Json.item, lookup_compactEntries _ _ hkey]
      exact h
    | null => cases h
    | bool b => cases h
    | number t => cases h
    | str t => cases h
    | list xs => cases h

/-- **A prompt within its budget**: the instruction and an object that shows the payload. -/
theorem buildBoundedJsonPrompt_ok {instruction : Text} {payload : Json} {maxChars : ℤ}
    {result : PromptBuildResult}
    (h : buildBoundedJsonPrompt instruction payload maxChars = .ok result) :
    (result.prompt.length : ℤ) ≤ maxChars ∧
      ∃ shown, Shows payload shown ∧ result.prompt = instruction ++ shown.dumps := by
  unfold buildBoundedJsonPrompt at h
  split_ifs at h
  dsimp only at h
  split at h
  · rename_i found hfound
    obtain rfl := Except.ok.inj h
    obtain ⟨level, -, rfl⟩ := List.mem_map.1 (List.mem_of_find?_eq_some hfound)
    have hfits := List.find?_some hfound
    exact ⟨of_decide_eq_true hfits, _, shows_candidateAt payload level.1, rfl⟩
  · cases h

end Llm
end OpenFoamAgent
