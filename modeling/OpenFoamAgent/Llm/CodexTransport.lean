/-
# The event stream of a model call

`inspect_events` of `llm/codex_transport.py`: the events that the `codex exec` process
writes, one JSON object a line, are accepted or refused as a whole. A terminal error, an
item that is neither a message nor a diagnostic, an event of another kind and malformed
usage each refuse the stream; so does a stream without a completed turn, and one of more
than eight million characters.

The lines are those of `str.splitlines`, which ends a line at more characters than the
newline; a text of JSON may hold three of them as they are. A line that is cut inside its
object is no JSON, so that the stream is refused whatever its events
(`inspectEvents_exact`, with `HoldsObject.cut`).
-/
import OpenFoamAgent.Python.Float
import OpenFoamAgent.Python.JsonTails
import OpenFoamAgent.Verification.LineLayout

namespace OpenFoamAgent
namespace Llm

open Python Verification Traversal

/-! ### Events -/

/-- `_MODEL_ONLY_ALLOWED_ITEMS`. -/
def modelOnlyAllowedItems : List String := ["agent_message", "reasoning", "plan", "todo_list"]

/-- `_DIAGNOSTIC_ITEM_TYPES`. -/
def diagnosticItemTypes : List String := ["error"]

/-- What `inspect_events` raises. -/
inductive TransportError where
  | tooLong
  | turn (kind message : Text)
  | parse (message : String)
  | noTurn (lastDiagnostic : Option Text)
  | violation (eventType : Text) (itemType : Option Text) (detail : Text)

/-- `_bounded_detail`. -/
def boundedDetail (limit : ℕ) (value : Text) : Text :=
  let text := (strip (value.filter (· ≠ '\x00'))).map fun c => if c = '\n' then ' ' else c
  if limit < text.length then text.take limit ++ "...<truncated>".toList else text

/-- `a or b`, of texts. -/
def orText (a b : Text) : Text := if a = [] then b else a

/-- The keys of an error that may hold its message. -/
def messageKeys : List String := ["message", "detail", "error", "reason"]

/-- The first message of some keys that is not empty. -/
def firstMessage (messages : List (Text × Text)) : Text :=
  ((messageKeys.filterMap fun key =>
    (messages.find? (·.1 = key.toList)).map Prod.snd).find? (· ≠ [])).getD []

mutual

/-- `_extract_message`. -/
def extractMessage : Json → Text
  | .str t => boundedDetail 600 t
  | .dict es => firstMessage (extractMessages es)
  | _ => []

def extractMessages : List (Text × Json) → List (Text × Text)
  | [] => []
  | e :: es => (e.1, extractMessage e.2) :: extractMessages es

end

/-- `_extract_message(entries.get(first)) or _extract_message(entries.get(second))`. -/
def messageOf (entries : List (Text × Json)) (first second : String) : Text :=
  orText (((Json.lookup entries first).map extractMessage).getD [])
    (((Json.lookup entries second).map extractMessage).getD [])

/-- `str(value or "")` where the value is a text. The print of any other value is none of the
words that it is compared with, no more than the empty text. -/
def word : Option Json → Text
  | some (.str t) => t
  | _ => []

/-- A text among some words. -/
def among (t : Text) (words : List String) : Bool := words.any (·.toList = t)

section
variable (print : Json → Text)

/-- `str(value or "")`; `print` gives it for values other than texts. -/
def printed : Option Json → Text
  | some (.str t) => t
  | some value => print value
  | none => []

/-- A field of an item, named in the detail of a refusal. -/
def quotedDetail (name : String) (limit : ℕ) (item : List (Text × Json)) (first second : String) :
    Text :=
  let value := boundedDetail limit (orText (printed print (Json.lookup item first))
    (printed print (Json.lookup item second)))
  if value = [] then [] else name.toList ++ Json.quote value

/-- `_item_detail`. -/
def itemDetail (item : List (Text × Json)) : Text :=
  let itemType := word (Json.lookup item "type")
  if among itemType ["command_execution"] then
    quotedDetail print "command=" 500 item "command" "cmd"
  else if among itemType ["web_search", "web_search_call", "search"] then
    quotedDetail print "query=" 500 item "query" "q"
  else if among itemType ["mcp_tool_call", "tool_call"] then
    quotedDetail print "tool=" 300 item "name" "tool_name"
  else if among itemType ["file_change"] then
    quotedDetail print "path=" 400 item "path" "file_path"
  else []

/-- `_terminal_error`. -/
def terminalError (event : List (Text × Json)) (kind : Text) : TransportError :=
  .turn kind (messageOf event "error" "message")

/-! ### Usage -/

/-- The usage of a turn. -/
structure Usage where
  inputTokens : ℕ
  outputTokens : ℕ
  cachedInputTokens : Option ℕ
  reasoningOutputTokens : Option ℕ
  totalTokens : ℕ

/-- A count of tokens, an integer that is not negative. -/
def tokenCount : Json → Option ℕ
  | .number t =>
    if t = "-0".toList then some 0
    else if t.all isAsciiDigit then some (digitsValue t)
    else none
  | _ => none

def checkedCount (value : Json) : Except TransportError ℕ :=
  match tokenCount value with
  | some n => .ok n
  | none => .error (.parse "Invalid Codex token count.")

/-- The count under a key that need not be there. -/
def optionalCount (usage : List (Text × Json)) (key : String) :
    Except TransportError (Option ℕ) :=
  match Json.lookup usage key with
  | none => .ok none
  | some value => do return some (← checkedCount value)

/-- The `usage` of a completed turn. -/
def readUsage : Json → Except TransportError Usage
  | .dict usage =>
    match Json.lookup usage "input_tokens", Json.lookup usage "output_tokens" with
    | some input, some output => do
      let input ← checkedCount input
      let output ← checkedCount output
      let cached ← optionalCount usage "cached_input_tokens"
      let reasoning ← optionalCount usage "reasoning_output_tokens"
      return ⟨input, output, cached, reasoning, input + output⟩
    | _, _ => throw (.parse "Codex usage is incomplete; not substituting zero.")
  | _ => throw (.parse "Invalid Codex usage object.")

/-! ### The loop -/

/-- What the loop over the lines holds. -/
structure Inspection where
  completed : Bool := false
  usage : Option Usage := none
  count : ℕ := 0
  diagnostics : List Text := []

/-- One item. -/
def inspectItem (s : Inspection) (kind : Text) :
    Json → Except TransportError Inspection
  | .dict item =>
    let itemType := word (Json.lookup item "type")
    if among itemType diagnosticItemTypes then
      let message := orText (messageOf item "message" "error") (itemType ++ " diagnostic".toList)
      .ok { s with diagnostics := s.diagnostics ++ [boundedDetail 600 message] }
    else if among itemType modelOnlyAllowedItems then .ok s
    else .error (.violation kind
      (some (orText (printed print (Json.lookup item "type")) "<missing>".toList))
      (boundedDetail 600 (itemDetail print item)))
  | _ => .error (.violation kind none "item=<invalid-envelope>".toList)

/-- One event. -/
def inspectEvent (s : Inspection) (event : List (Text × Json)) :
    Except TransportError Inspection :=
  let s := { s with count := s.count + 1 }
  let kind := word (Json.lookup event "type")
  if among kind ["error", "turn.failed"] then .error (terminalError event kind)
  else if among kind ["item.started", "item.updated", "item.completed"] then
    inspectItem print s kind ((Json.lookup event "item").getD (.dict []))
  else if among kind ["turn.completed"] then
    match Json.lookup event "usage" with
    | none => .ok { s with completed := true }
    | some raw =>
      if raw = .null then .ok { s with completed := true }
      else do
        let usage ← readUsage raw
        return { s with completed := true, usage := some usage }
  else if among kind ["thread.started", "turn.started"] then .ok s
  else .error (.violation
    (orText (printed print (Json.lookup event "type")) "<missing>".toList) none
    "unknown event envelope".toList)

/-- One line. -/
def inspectLine (s : Inspection) (line : Text) : Except TransportError Inspection :=
  if strip line = [] then .ok s
  else
    match Json.loads line with
    | none => .error (.parse
        "Codex --json returned a non-JSON event; transport contract is unverified.")
    | some (.dict event) => inspectEvent print s event
    | some _ => .error (.parse "Invalid Codex event envelope.")

/-- What an accepted stream is reported as. -/
structure TransportReport where
  eventCount : ℕ
  turnCompleted : Bool := true
  toolEventsObserved : Bool := false
  diagnosticItemsObserved : ℕ
  diagnostics : List Text
  modelOnlyProfileRequested : Bool := true
  postExecutionEventGuard : Bool := true
  preExecutionToolPreventionVerified : Bool := false

/-- The characters of a stream that is inspected. -/
def inspectionLimit : ℕ := 8000000

/-- `inspect_events`. -/
def inspectEvents (output : Text) : Except TransportError (TransportReport × Option Usage) := do
  if inspectionLimit < output.length then throw .tooLong
  let s ← (splitlines output).foldlM (inspectLine print) {}
  if s.completed = false then throw (.noTurn s.diagnostics.getLast?)
  return ({
    eventCount := s.count
    diagnosticItemsObserved := s.diagnostics.length
    diagnostics := s.diagnostics.drop (s.diagnostics.length - 8) }, s.usage)

end

/-! ### What is to be accepted -/

/-- An object whose type is one of some words. -/
def TypeIs (entries : List (Text × Json)) (words : List String) : Prop :=
  ∃ w ∈ words, Json.lookup entries "type" = some (.str w.toList)

/-- A terminal error. -/
def Terminal (event : List (Text × Json)) : Prop := TypeIs event ["error", "turn.failed"]

/-- An item event. -/
def IsItem (event : List (Text × Json)) : Prop :=
  TypeIs event ["item.started", "item.updated", "item.completed"]

/-- The end of a turn. -/
def Completes (event : List (Text × Json)) : Prop := TypeIs event ["turn.completed"]

/-- An event of another known type. -/
def Known (event : List (Text × Json)) : Prop :=
  TypeIs event ["turn.completed", "thread.started", "turn.started"]

/-- The item of an event is of an allowed or a diagnostic type. -/
def CarriesAllowed (event : List (Text × Json)) : Prop :=
  ∃ item, Json.lookup event "item" = some (.dict item) ∧
    TypeIs item (modelOnlyAllowedItems ++ diagnosticItemTypes)

/-- An integer that is not negative, as it is written. -/
def IsCount (value : Json) : Prop :=
  ∃ t, value = .number t ∧ (t = "-0".toList ∨ t.all isAsciiDigit = true)

/-- The counts of a usage object. -/
def usageKeys : List String :=
  ["input_tokens", "output_tokens", "cached_input_tokens", "reasoning_output_tokens"]

/-- Usage that is absent or well formed. -/
def FitsUsage (event : List (Text × Json)) : Prop :=
  Json.lookup event "usage" = none ∨ Json.lookup event "usage" = some .null ∨
    ∃ usage, Json.lookup event "usage" = some (.dict usage) ∧
      (Json.lookup usage "input_tokens").isSome ∧ (Json.lookup usage "output_tokens").isSome ∧
        ∀ key ∈ usageKeys, ∀ value, Json.lookup usage key = some value → IsCount value

/-- The events of a stream to be accepted. -/
structure Admitted (events : List (List (Text × Json))) : Prop where
  noTerminal : ∀ e ∈ events, ¬ Terminal e
  items : ∀ e ∈ events, IsItem e → CarriesAllowed e
  known : ∀ e ∈ events, ¬ Terminal e → ¬ IsItem e → Known e
  usage : ∀ e ∈ events, Completes e → FitsUsage e
  completed : ∃ e ∈ events, Completes e

/-! ### One event -/

theorem among_eq_true {t : Text} {words : List String} :
    among t words = true ↔ ∃ w ∈ words, w.toList = t := by
  simp [among]

theorem typeIs_iff {entries : List (Text × Json)} {words : List String}
    (hwords : ∀ w ∈ words, w.toList ≠ []) :
    TypeIs entries words ↔ among (word (Json.lookup entries "type")) words = true := by
  rw [among_eq_true]
  constructor
  · rintro ⟨w, hw, htype⟩
    exact ⟨w, hw, by rw [htype]; rfl⟩
  · rintro ⟨w, hw, htype⟩
    refine ⟨w, hw, ?_⟩
    cases hlookup : Json.lookup entries "type" with
    | none =>
      rw [hlookup] at htype
      exact absurd htype (hwords w hw)
    | some value =>
      rw [hlookup] at htype
      cases value with
      | str t => rw [htype]; rfl
      | _ => exact absurd htype (hwords w hw)

/-- An object has one type. -/
theorem TypeIs.disjoint {entries : List (Text × Json)} {a b : List String} (ha : TypeIs entries a)
    (hb : TypeIs entries b) : ∃ w ∈ a, w ∈ b := by
  obtain ⟨w, hw, htype⟩ := ha
  obtain ⟨w', hw', htype'⟩ := hb
  rw [htype, Option.some.injEq, Json.str.injEq, String.toList_inj] at htype'
  exact ⟨w, hw, htype' ▸ hw'⟩

/-- An event that does not refuse the stream. -/
def Tolerated (event : List (Text × Json)) : Prop :=
  (IsItem event ∧ CarriesAllowed event) ∨ (Completes event ∧ FitsUsage event) ∨
    TypeIs event ["thread.started", "turn.started"]

theorem tolerated_iff {event : List (Text × Json)} : Tolerated event ↔
    ¬ Terminal event ∧ (IsItem event → CarriesAllowed event) ∧
      (¬ Terminal event → ¬ IsItem event → Known event) ∧
        (Completes event → FitsUsage event) := by
  constructor
  · rintro (⟨hitem, hcarries⟩ | ⟨hcompletes, hfits⟩ | hknown)
    · refine ⟨fun h => ?_, fun _ => hcarries, fun _ h => absurd hitem h, fun h => ?_⟩
      · exact absurd (hitem.disjoint h) (by decide)
      · exact absurd (hitem.disjoint h) (by decide)
    · refine ⟨fun h => ?_, fun h => ?_, fun _ _ => ?_, fun _ => hfits⟩
      · exact absurd (hcompletes.disjoint h) (by decide)
      · exact absurd (hcompletes.disjoint h) (by decide)
      · obtain ⟨w, hw, htype⟩ := hcompletes
        exact ⟨w, by simp_all, htype⟩
    · refine ⟨fun h => ?_, fun h => ?_, fun _ _ => ?_, fun h => ?_⟩
      · exact absurd (hknown.disjoint h) (by decide)
      · exact absurd (hknown.disjoint h) (by decide)
      · obtain ⟨w, hw, htype⟩ := hknown
        exact ⟨w, List.mem_cons_of_mem _ hw, htype⟩
      · exact absurd (hknown.disjoint h) (by decide)
  · rintro ⟨hterminal, hitem, hknown, hfits⟩
    by_cases h : IsItem event
    · exact .inl ⟨h, hitem h⟩
    · obtain ⟨w, hw, htype⟩ := hknown hterminal h
      rcases List.mem_cons.1 hw with rfl | hw
      · have hcompletes : Completes event := ⟨_, List.mem_cons_self, htype⟩
        exact .inr (.inl ⟨hcompletes, hfits hcompletes⟩)
      · exact .inr (.inr ⟨w, hw, htype⟩)

theorem checkedCount_eq_ok {value : Json} : (∃ n, checkedCount value = .ok n) ↔ IsCount value := by
  cases value with
  | number t =>
    rw [checkedCount, tokenCount]
    by_cases hzero : t = "-0".toList
    · rw [if_pos hzero]
      exact ⟨fun _ => ⟨t, rfl, .inl hzero⟩, fun _ => ⟨0, rfl⟩⟩
    · rw [if_neg hzero]
      by_cases hdigits : t.all isAsciiDigit = true
      · rw [if_pos hdigits]
        exact ⟨fun _ => ⟨t, rfl, .inr hdigits⟩, fun _ => ⟨digitsValue t, rfl⟩⟩
      · rw [if_neg hdigits]
        constructor
        · rintro ⟨n, hn⟩
          cases hn
        · rintro ⟨t', ht', h⟩
          obtain rfl := Json.number.inj ht'
          exact absurd h (not_or.2 ⟨hzero, hdigits⟩)
  | _ =>
    constructor
    · rintro ⟨n, hn⟩
      cases hn
    · rintro ⟨t, ht, -⟩
      cases ht

theorem optionalCount_eq_ok {usage : List (Text × Json)} {key : String} :
    (∃ n, optionalCount usage key = .ok n) ↔
      ∀ value, Json.lookup usage key = some value → IsCount value := by
  rw [optionalCount]
  cases hlookup : Json.lookup usage key with
  | none => simp
  | some value =>
    dsimp only
    constructor
    · rintro ⟨n, hn⟩ value' hvalue
      obtain rfl := Option.some.inj hvalue
      obtain ⟨m, hm, -⟩ := bind_eq_ok.1 hn
      exact checkedCount_eq_ok.1 ⟨m, hm⟩
    · intro h
      obtain ⟨m, hm⟩ := checkedCount_eq_ok.2 (h value rfl)
      exact ⟨some m, bind_eq_ok.2 ⟨m, hm, rfl⟩⟩

/-- Usage is read where its counts are counts. -/
theorem readUsage_eq_ok {raw : Json} : (∃ u, readUsage raw = .ok u) ↔
    ∃ usage, raw = .dict usage ∧
      (Json.lookup usage "input_tokens").isSome ∧ (Json.lookup usage "output_tokens").isSome ∧
        ∀ key ∈ usageKeys, ∀ value, Json.lookup usage key = some value → IsCount value := by
  cases raw with
  | dict usage =>
    rw [readUsage]
    cases hinput : Json.lookup usage "input_tokens" with
    | none => simp [hinput, throw, throwThe, MonadExceptOf.throw]
    | some input =>
      cases houtput : Json.lookup usage "output_tokens" with
      | none => simp [houtput, throw, throwThe, MonadExceptOf.throw]
      | some output =>
        dsimp only
        constructor
        · rintro ⟨u, hu⟩
          obtain ⟨i, hi, hu⟩ := bind_eq_ok.1 hu
          obtain ⟨o, ho, hu⟩ := bind_eq_ok.1 hu
          obtain ⟨c, hc, hu⟩ := bind_eq_ok.1 hu
          obtain ⟨r, hr, -⟩ := bind_eq_ok.1 hu
          refine ⟨usage, rfl, by rw [hinput]; rfl, by rw [houtput]; rfl, ?_⟩
          simp only [usageKeys, List.forall_mem_cons, List.not_mem_nil, false_implies,
            implies_true, and_true]
          refine ⟨fun value h => ?_, fun value h => ?_, optionalCount_eq_ok.1 ⟨c, hc⟩,
            optionalCount_eq_ok.1 ⟨r, hr⟩⟩
          · obtain rfl := Option.some.inj (hinput.symm.trans h)
            exact checkedCount_eq_ok.1 ⟨i, hi⟩
          · obtain rfl := Option.some.inj (houtput.symm.trans h)
            exact checkedCount_eq_ok.1 ⟨o, ho⟩
        · rintro ⟨usage', heq, -, -, h⟩
          obtain rfl := Json.dict.inj heq
          simp only [usageKeys, List.forall_mem_cons, List.not_mem_nil, false_implies,
            implies_true, and_true] at h
          obtain ⟨hi, ho, hc, hr⟩ := h
          obtain ⟨i, hi⟩ := checkedCount_eq_ok.2 (hi input hinput)
          obtain ⟨o, ho⟩ := checkedCount_eq_ok.2 (ho output houtput)
          obtain ⟨c, hc⟩ := optionalCount_eq_ok.2 hc
          obtain ⟨r, hr⟩ := optionalCount_eq_ok.2 hr
          exact ⟨_, bind_eq_ok.2 ⟨i, hi, bind_eq_ok.2 ⟨o, ho, bind_eq_ok.2 ⟨c, hc,
            bind_eq_ok.2 ⟨r, hr, rfl⟩⟩⟩⟩⟩
  | _ =>
    constructor
    · rintro ⟨u, hu⟩
      cases hu
    · rintro ⟨usage, heq, -⟩
      cases heq

section
variable (print : Json → Text)

theorem inspectItem_eq_ok {s : Inspection} {kind : Text} {item : Json} :
    (∃ s', inspectItem print s kind item = .ok s') ↔
      ∃ es, item = .dict es ∧ TypeIs es (modelOnlyAllowedItems ++ diagnosticItemTypes) := by
  cases item with
  | dict es =>
    have hwords : ∀ w ∈ modelOnlyAllowedItems ++ diagnosticItemTypes, w.toList ≠ [] := by decide
    have hor : TypeIs es (modelOnlyAllowedItems ++ diagnosticItemTypes) ↔
        among (word (Json.lookup es "type")) diagnosticItemTypes = true ∨
          among (word (Json.lookup es "type")) modelOnlyAllowedItems = true := by
      rw [typeIs_iff hwords, among, List.any_append, Bool.or_eq_true, or_comm]
      rfl
    rw [inspectItem]
    dsimp only
    constructor
    · rintro ⟨s', h⟩
      refine ⟨es, rfl, hor.2 ?_⟩
      by_cases hdiagnostic : among (word (Json.lookup es "type")) diagnosticItemTypes = true
      · exact .inl hdiagnostic
      · rw [if_neg hdiagnostic] at h
        by_cases hallowed : among (word (Json.lookup es "type")) modelOnlyAllowedItems = true
        · exact .inr hallowed
        · rw [if_neg hallowed] at h
          cases h
    · rintro ⟨es', heq, h⟩
      obtain rfl := Json.dict.inj heq
      by_cases hdiagnostic : among (word (Json.lookup es "type")) diagnosticItemTypes = true
      · rw [if_pos hdiagnostic]
        exact ⟨_, rfl⟩
      · rw [if_neg hdiagnostic, if_pos ((hor.1 h).resolve_left hdiagnostic)]
        exact ⟨_, rfl⟩
  | _ =>
    constructor
    · rintro ⟨s', h⟩
      cases h
    · rintro ⟨es, heq, -⟩
      cases heq

theorem inspectItem_completed {s s' : Inspection} {kind : Text} {item : Json}
    (h : inspectItem print s kind item = .ok s') : s'.completed = s.completed := by
  cases item with
  | dict es =>
    rw [inspectItem] at h
    dsimp only at h
    split_ifs at h
    · obtain rfl := Except.ok.inj h
      rfl
    · obtain rfl := Except.ok.inj h
      rfl
  | _ => cases h

/-- The item of an event that names none is an empty object. -/
theorem carriesAllowed_iff {event : List (Text × Json)} : CarriesAllowed event ↔
    ∃ es, (Json.lookup event "item").getD (.dict []) = .dict es ∧
      TypeIs es (modelOnlyAllowedItems ++ diagnosticItemTypes) := by
  constructor
  · rintro ⟨item, hitem, htype⟩
    exact ⟨item, by rw [hitem]; rfl, htype⟩
  · rintro ⟨es, heq, htype⟩
    cases hitem : Json.lookup event "item" with
    | none =>
      rw [hitem] at heq
      obtain rfl := Json.dict.inj heq
      obtain ⟨w, -, hw⟩ := htype
      cases hw
    | some item =>
      rw [hitem] at heq
      obtain rfl : item = .dict es := heq
      exact ⟨es, hitem, htype⟩

/-- **The step.** An event is let pass where it is tolerated, and the end of a turn is
noted. -/
theorem inspectEvent_spec (s : Inspection) (event : List (Text × Json)) :
    ((∃ s', inspectEvent print s event = .ok s') ↔ Tolerated event) ∧
      ∀ s', inspectEvent print s event = .ok s' →
        (s'.completed = true ↔ s.completed = true ∨ Completes event) := by
  have hterminal : Terminal event ↔ _ := typeIs_iff (by decide)
  have hitem : IsItem event ↔ _ := typeIs_iff (by decide)
  have hcompletes : Completes event ↔ _ := typeIs_iff (by decide)
  have hstarted : TypeIs event ["thread.started", "turn.started"] ↔ _ := typeIs_iff (by decide)
  rw [inspectEvent]
  dsimp only
  by_cases h : Terminal event
  · rw [if_pos (hterminal.1 h)]
    refine ⟨⟨?_, fun ht => absurd h (tolerated_iff.1 ht).1⟩, ?_⟩
    · rintro ⟨s', hs⟩
      cases hs
    · intro s' hs
      cases hs
  rw [if_neg (hterminal.not.1 h)]
  by_cases hi : IsItem event
  · rw [if_pos (hitem.1 hi), inspectItem_eq_ok, ← carriesAllowed_iff]
    refine ⟨⟨fun hc => .inl ⟨hi, hc⟩, fun ht => (tolerated_iff.1 ht).2.1 hi⟩, fun s' hs => ?_⟩
    rw [inspectItem_completed print hs]
    refine ⟨.inl, fun hc => hc.resolve_right fun hc => ?_⟩
    exact absurd (hi.disjoint hc) (by decide)
  rw [if_neg (hitem.not.1 hi)]
  by_cases hc : Completes event
  · rw [if_pos (hcompletes.1 hc)]
    have hfits : Tolerated event ↔ FitsUsage event :=
      ⟨fun ht => (tolerated_iff.1 ht).2.2.2 hc, fun hf => .inr (.inl ⟨hc, hf⟩)⟩
    rw [hfits, FitsUsage]
    cases husage : Json.lookup event "usage" with
    | none =>
      refine ⟨⟨fun _ => .inl rfl, fun _ => ⟨_, rfl⟩⟩, fun s' hs => ?_⟩
      obtain rfl := Except.ok.inj hs
      simp [hc]
    | some raw =>
      dsimp only
      by_cases hnull : raw = .null
      · rw [if_pos hnull]
        refine ⟨⟨fun _ => .inr (.inl (congrArg some hnull)), fun _ => ⟨_, rfl⟩⟩, fun s' hs => ?_⟩
        obtain rfl := Except.ok.inj hs
        simp [hc]
      · rw [if_neg hnull]
        refine ⟨⟨?_, ?_⟩, ?_⟩
        · rintro ⟨s', hs⟩
          obtain ⟨u, hu, -⟩ := bind_eq_ok.1 hs
          obtain ⟨usage, rfl, h⟩ := readUsage_eq_ok.1 ⟨u, hu⟩
          exact .inr (.inr ⟨usage, rfl, h⟩)
        · rintro (hnone | hsome | ⟨usage, heq, h⟩)
          · cases hnone
          · exact absurd (Option.some.inj hsome) hnull
          · obtain ⟨u, hu⟩ := readUsage_eq_ok.2 ⟨usage, Option.some.inj heq, h⟩
            exact ⟨_, bind_eq_ok.2 ⟨u, hu, rfl⟩⟩
        · intro s' hs
          obtain ⟨u, -, hs⟩ := bind_eq_ok.1 hs
          obtain rfl := Except.ok.inj hs
          simp [hc]
  rw [if_neg (hcompletes.not.1 hc)]
  by_cases hs : TypeIs event ["thread.started", "turn.started"]
  · rw [if_pos (hstarted.1 hs)]
    refine ⟨⟨fun _ => .inr (.inr hs), fun _ => ⟨_, rfl⟩⟩, fun s' hs => ?_⟩
    obtain rfl := Except.ok.inj hs
    simp [hc]
  · rw [if_neg (hstarted.not.1 hs)]
    refine ⟨⟨?_, ?_⟩, ?_⟩
    · rintro ⟨s', hs⟩
      cases hs
    · rintro (⟨ht, -⟩ | ⟨ht, -⟩ | ht)
      · exact absurd ht hi
      · exact absurd ht hc
      · exact absurd ht hs
    · intro s' hs
      cases hs

/-- **The run.** Some events are let pass where each is tolerated. -/
theorem foldlM_inspectEvent (events : List (List (Text × Json))) (s : Inspection) :
    ((∃ s', events.foldlM (inspectEvent print) s = .ok s') ↔ ∀ e ∈ events, Tolerated e) ∧
      ∀ s', events.foldlM (inspectEvent print) s = .ok s' →
        (s'.completed = true ↔ s.completed = true ∨ ∃ e ∈ events, Completes e) := by
  induction events generalizing s with
  | nil =>
    constructor
    · simp [pure, Except.pure]
    · intro s' hs
      obtain rfl := Except.ok.inj hs
      simp
  | cons e events ih =>
    obtain ⟨hstep, hnoted⟩ := inspectEvent_spec print s e
    rw [List.foldlM_cons]
    refine ⟨⟨?_, ?_⟩, ?_⟩
    · rintro ⟨s', hs⟩
      obtain ⟨m, hm, hs⟩ := bind_eq_ok.1 hs
      rw [List.forall_mem_cons]
      exact ⟨hstep.1 ⟨m, hm⟩, (ih m).1.1 ⟨s', hs⟩⟩
    · intro h
      rw [List.forall_mem_cons] at h
      obtain ⟨m, hm⟩ := hstep.2 h.1
      obtain ⟨s', hs⟩ := (ih m).1.2 h.2
      exact ⟨s', bind_eq_ok.2 ⟨m, hm, hs⟩⟩
    · intro s' hs
      obtain ⟨m, hm, hs⟩ := bind_eq_ok.1 hs
      rw [(ih m).2 s' hs, hnoted m hm, or_assoc, List.exists_mem_cons_iff]

/-! ### Lines -/

theorem inspectLine_blank {line : Text} (h : ∀ c ∈ line, isSpace c) (s : Inspection) :
    inspectLine print s line = .ok s := by
  rw [inspectLine, if_pos (strip_eq_nil.2 h)]

/-- The first fragment of an object that is no white space holds all of it. -/
theorem inspectLine_cut {line u : Text} {event : List (Text × Json)} {s s' : Inspection}
    (hholds : Json.HoldsObject (line ++ u) event) (hline : ¬ ∀ c ∈ line, isSpace c)
    (h : inspectLine print s line = .ok s') :
    inspectEvent print s event = .ok s' ∧ ∀ c ∈ u, isSpace c := by
  rw [inspectLine, if_neg (strip_eq_nil.not.2 hline)] at h
  cases hloads : Json.loads line with
  | none =>
    rw [hloads] at h
    cases h
  | some value =>
    rw [hloads] at h
    obtain ⟨rfl, hskip⟩ := hholds.cut hloads
    refine ⟨h, fun c hc => ?_⟩
    have hspace := List.dropWhile_eq_nil_iff.1 hskip c hc
    simp only [Json.isJsonSpace, Bool.or_eq_true, beq_iff_eq] at hspace
    rcases hspace with ((rfl | rfl) | rfl) | rfl <;> decide

theorem not_space_of_holdsObject {line : Text} {event : List (Text × Json)}
    (h : Json.HoldsObject line event) : ¬ ∀ c ∈ line, isSpace c := by
  intro hspace
  obtain ⟨fuel, rest, -, hscan, -⟩ := h
  have hmem : '\x7b' ∈ Json.skip line := List.mem_of_mem_head? (Json.head_of_scanValue_dict hscan)
  have hfalse := hspace _ ((List.dropWhile_sublist _).subset hmem)
  revert hfalse
  decide

theorem inspectLine_object {line : Text} {event : List (Text × Json)}
    (h : Json.loads line = some (.dict event)) (s : Inspection) :
    inspectLine print s line = inspectEvent print s event := by
  have hspace := not_space_of_holdsObject (Json.holdsObject_of_loads h)
  rw [inspectLine, if_neg (strip_eq_nil.not.2 hspace), h]

/-- A line break ends a line for the loop. -/
theorem foldlM_splitlinesFrom_break {c : Char} (hc : isLineBreak c = true) (line t : Text)
    (s : Inspection) :
    (splitlinesFrom line (c :: t)).foldlM (inspectLine print) s =
      inspectLine print s line >>= fun s' => (splitlines t).foldlM (inspectLine print) s' := by
  rw [splitlinesFrom.eq_def line (c :: t)]
  split
  · rename_i heq
    cases heq
  · rename_i cs heq
    obtain ⟨rfl, rfl⟩ := List.cons.inj heq
    rw [List.foldlM_cons]
    refine bind_congr fun s' => ?_
    rw [splitlines, splitlinesFrom, if_pos (by decide), List.foldlM_cons,
      inspectLine_blank print (fun c hc => by cases hc)]
    · rfl
    · simp
  · rename_i c' cs _ heq
    obtain ⟨rfl, rfl⟩ := List.cons.inj heq
    rw [if_pos hc, List.foldlM_cons]
    rfl

/-- A line of white space, however it is broken, changes nothing. -/
theorem foldlM_splitlinesFrom_space {line q : Text} (hline : ∀ c ∈ line, isSpace c)
    (hq : ∀ c ∈ q, isSpace c) (t : Text) (s : Inspection) :
    (splitlinesFrom line (q ++ '\n' :: t)).foldlM (inspectLine print) s =
      (splitlines t).foldlM (inspectLine print) s := by
  induction q generalizing line with
  | nil =>
    rw [List.nil_append, foldlM_splitlinesFrom_break print (by decide),
      inspectLine_blank print hline]
    rfl
  | cons c q ih =>
    have hq' : ∀ d ∈ q, isSpace d := fun d hd => hq d (List.mem_cons_of_mem _ hd)
    by_cases hc : isLineBreak c = true
    · rw [List.cons_append, foldlM_splitlinesFrom_break print hc, inspectLine_blank print hline]
      exact ih (fun d hd => by cases hd) hq'
    · have hsingle : ∀ d ∈ [c], isLineBreak d = false := by simpa using hc
      rw [← List.singleton_append, List.append_assoc, splitlinesFrom_append hsingle]
      refine ih (fun d hd => ?_) hq'
      rcases List.mem_append.1 hd with hd | hd
      · exact hline d hd
      · rw [List.mem_singleton.1 hd]
        exact hq c List.mem_cons_self

/-- **A line that holds an object.** Where its fragments are let pass, they are one event. -/
theorem foldlM_splitlines_object {line t : Text} {event : List (Text × Json)}
    (h : Json.HoldsObject line event) {s s'' : Inspection}
    (hs : (splitlines (line ++ '\n' :: t)).foldlM (inspectLine print) s = .ok s'') :
    ∃ s', inspectEvent print s event = .ok s' ∧
      (splitlines t).foldlM (inspectLine print) s' = .ok s'' := by
  induction hlength : line.length using Nat.strong_induction_on generalizing line with
  | _ n ih =>
    obtain ⟨f, q, rfl, hf, hq⟩ : ∃ f q, line = f ++ q ∧ (∀ c ∈ f, isLineBreak c = false) ∧
        ∀ c ∈ q.head?, isLineBreak c = true := by
      refine ⟨line.takeWhile (!isLineBreak ·), line.dropWhile (!isLineBreak ·),
        List.takeWhile_append_dropWhile.symm, fun c hc => ?_, fun c hc => ?_⟩
      · simpa using List.mem_takeWhile_imp hc
      · have hnot := List.head?_dropWhile_not (!isLineBreak ·) line
        rw [Option.mem_def.1 hc] at hnot
        simpa using hnot
    rw [splitlines, List.append_assoc, splitlinesFrom_append hf, List.nil_append] at hs
    cases q with
    | nil =>
      rw [List.nil_append, foldlM_splitlinesFrom_break print (by decide)] at hs
      obtain ⟨s', hline, hrest⟩ := bind_eq_ok.1 hs
      have hspace := not_space_of_holdsObject h
      rw [List.append_nil] at hspace
      exact ⟨s', (inspectLine_cut print h hspace hline).1, hrest⟩
    | cons c q =>
      have hc : isLineBreak c = true := hq c rfl
      rw [List.cons_append, foldlM_splitlinesFrom_break print hc] at hs
      obtain ⟨s', hline, hrest⟩ := bind_eq_ok.1 hs
      by_cases hblank : ∀ d ∈ f, isSpace d
      · rw [inspectLine_blank print hblank] at hline
        obtain rfl := Except.ok.inj hline
        -- the object stands behind the break
        have hspaces : ∀ d ∈ f ++ [c], d ≠ '\x7b' := by
          rintro d hd rfl
          have hspace : isSpace '\x7b' := by
            rcases List.mem_append.1 hd with hd | hd
            · exact hblank _ hd
            · exact isSpace_of_isLineBreak (List.mem_singleton.1 hd ▸ hc)
          revert hspace
          decide
        have hholds : Json.HoldsObject q event := by
          refine Json.HoldsObject.of_space (t := f ++ [c]) ?_ hspaces
          rwa [List.append_assoc]
        refine ih q.length ?_ hholds hrest rfl
        rw [← hlength, List.length_append, List.length_cons]
        omega
      · obtain ⟨hevent, hspaces⟩ := inspectLine_cut print h hblank hline
        refine ⟨s', hevent, ?_⟩
        rwa [splitlines, foldlM_splitlinesFrom_space print (fun d hd => by cases hd)
          fun d hd => hspaces d (List.mem_cons_of_mem _ hd)] at hrest

/-! ### Streams -/

/-- Some lines, each with its newline. -/
def stream (lines : List Text) : Text := lines.flatMap (· ++ ['\n'])

/-- `line` is an object of JSON. -/
def Writes (line : Text) (event : List (Text × Json)) : Prop :=
  Json.loads line = some (.dict event)

theorem foldlM_stream {lines : List Text} {events : List (List (Text × Json))}
    (h : List.Forall₂ Writes lines events) {s s' : Inspection}
    (hs : (splitlines (stream lines)).foldlM (inspectLine print) s = .ok s') :
    events.foldlM (inspectEvent print) s = .ok s' := by
  induction h generalizing s with
  | nil => exact hs
  | cons hline _ ih =>
    rw [stream, List.flatMap_cons, List.append_assoc, List.singleton_append] at hs
    obtain ⟨m, hm, hrest⟩ := foldlM_splitlines_object print (Json.holdsObject_of_loads hline) hs
    exact bind_eq_ok.2 ⟨m, hm, ih hrest⟩

/-- Lines without further breaks are inspected one by one. -/
theorem foldlM_stream_eq {lines : List Text} {events : List (List (Text × Json))}
    (h : List.Forall₂ Writes lines events)
    (hbreaks : ∀ line ∈ lines, ∀ c ∈ line, isLineBreak c = false) (s : Inspection) :
    (splitlines (stream lines)).foldlM (inspectLine print) s =
      events.foldlM (inspectEvent print) s := by
  induction h generalizing s with
  | nil => rfl
  | cons hline _ ih =>
    rw [List.forall_mem_cons] at hbreaks
    rw [stream, List.flatMap_cons, List.append_assoc, List.singleton_append, splitlines,
      splitlinesFrom_append hbreaks.1, foldlM_splitlinesFrom_break print (by decide),
      List.nil_append, inspectLine_object print hline, List.foldlM_cons]
    exact bind_congr fun s' => ih hbreaks.2 s'

/-- The stream is let pass. -/
def Accepted (output : Text) : Prop := ∃ r, inspectEvents print output = .ok r

theorem accepted_iff {output : Text} : Accepted print output ↔
    output.length ≤ inspectionLimit ∧
      ∃ s, (splitlines output).foldlM (inspectLine print) {} = .ok s ∧ s.completed = true := by
  rw [Accepted, inspectEvents]
  constructor
  · rintro ⟨r, hr⟩
    obtain ⟨hsize, hr⟩ := guard_eq_ok.1 hr
    obtain ⟨s, hs, hr⟩ := bind_eq_ok.1 hr
    obtain ⟨hcompleted, -⟩ := guard_eq_ok.1 hr
    exact ⟨not_lt.1 hsize, s, hs, by simpa using hcompleted⟩
  · rintro ⟨hsize, s, hs, hcompleted⟩
    refine ⟨_, guard_eq_ok.2 ⟨not_lt.2 hsize, bind_eq_ok.2 ⟨s, hs, guard_eq_ok.2 ⟨?_, rfl⟩⟩⟩⟩
    simpa using hcompleted

/-- The events of an accepted stream, and no others, are let pass by the loop over events. -/
theorem admitted_iff {events : List (List (Text × Json))} : Admitted events ↔
    ∃ s, events.foldlM (inspectEvent print) {} = .ok s ∧ s.completed = true := by
  obtain ⟨hrun, hcompleted⟩ := foldlM_inspectEvent print events {}
  constructor
  · intro h
    obtain ⟨s, hs⟩ := hrun.2 fun e he => tolerated_iff.2
      ⟨h.noTerminal e he, h.items e he, h.known e he, h.usage e he⟩
    exact ⟨s, hs, (hcompleted s hs).2 (.inr h.completed)⟩
  · rintro ⟨s, hs, hdone⟩
    have htolerated : ∀ e ∈ events, _ := fun e he => tolerated_iff.1 (hrun.1 ⟨s, hs⟩ e he)
    exact ⟨fun e he => (htolerated e he).1, fun e he => (htolerated e he).2.1,
      fun e he => (htolerated e he).2.2.1, fun e he => (htolerated e he).2.2.2,
      ((hcompleted s hs).1 hdone).resolve_left (by simp)⟩

/-- **Acceptance of a stream.** -/
theorem inspectEvents_exact {lines : List Text} {events : List (List (Text × Json))}
    (h : List.Forall₂ Writes lines events) :
    (Accepted print (stream lines) → (stream lines).length ≤ inspectionLimit ∧ Admitted events) ∧
      ((∀ line ∈ lines, ∀ c ∈ line, isLineBreak c = false) →
        (stream lines).length ≤ inspectionLimit → Admitted events →
          Accepted print (stream lines)) := by
  constructor
  · intro haccepted
    obtain ⟨hsize, s, hs, hcompleted⟩ := (accepted_iff print).1 haccepted
    exact ⟨hsize, (admitted_iff print).2 ⟨s, foldlM_stream print h hs, hcompleted⟩⟩
  · intro hbreaks hsize hadmitted
    obtain ⟨s, hs, hcompleted⟩ := (admitted_iff print).1 hadmitted
    exact (accepted_iff print).2
      ⟨hsize, s, by rw [foldlM_stream_eq print h hbreaks, hs], hcompleted⟩

end

/-! ### Streams of a turn -/

/-- A turn that ends without usage. -/
def turnLine : Text := "\x7b\"type\":\"turn.completed\"\x7d".toList

def turnEvent : List (Text × Json) := [("type".toList, .str "turn.completed".toList)]

/-- A turn that ends with usage of nothing. -/
def usageLine : Text := "\x7b\"type\":\"turn.completed\",\"usage\":\x7b\x7d\x7d".toList

def usageEvent : List (Text × Json) :=
  [("type".toList, .str "turn.completed".toList), ("usage".toList, .dict [])]

/-- A plan with a text of its own. -/
def planLine (text : Text) : Text :=
  "\x7b\"type\":\"item.completed\",\"item\":\x7b\"type\":\"plan\",\"text\":".toList ++
    (Json.quote text ++ "\x7d\x7d".toList)

def planEvent (text : Text) : List (Text × Json) :=
  [("type".toList, .str "item.completed".toList),
    ("item".toList, .dict [("type".toList, .str "plan".toList), ("text".toList, .str text)])]

instance (line : Text) (event : List (Text × Json)) : Decidable (Writes line event) :=
  inferInstanceAs (Decidable (Json.loads line = some (.dict event)))

instance (entries : List (Text × Json)) (words : List String) : Decidable (TypeIs entries words) :=
  inferInstanceAs (Decidable (∃ w ∈ words, Json.lookup entries "type" = some (.str w.toList)))

theorem writes_turnLine : Writes turnLine turnEvent := by decide +kernel

theorem writes_usageLine : Writes usageLine usageEvent := by decide +kernel

theorem completes_turnEvent : Completes turnEvent := ⟨_, List.mem_cons_self, rfl⟩

theorem fitsUsage_turnEvent : FitsUsage turnEvent := .inl rfl

theorem admitted_plan (text : Text) : Admitted [planEvent text, turnEvent] :=
  (admitted_iff fun _ => []).2 ⟨{ completed := true, count := 2 }, rfl, rfl⟩

/-- Lines without a line break, by a scan. -/
theorem noBreaks_of_all {lines : List Text} (h : lines.all (·.all (!isLineBreak ·)) = true) :
    ∀ line ∈ lines, ∀ c ∈ line, isLineBreak c = false := by
  intro line hline c hc
  have hchar := List.all_eq_true.1 (List.all_eq_true.1 h line hline) c hc
  simpa using hchar

theorem writes_turnLines (n : ℕ) :
    List.Forall₂ Writes (List.replicate n turnLine) (List.replicate n turnEvent) := by
  induction n with
  | zero => exact .nil
  | succ n ih => exact .cons writes_turnLine ih

theorem length_turnLines (n : ℕ) : (stream (List.replicate n turnLine)).length = 26 * n := by
  have hline : (turnLine ++ ['\n']).length = 26 := by decide +kernel
  induction n with
  | zero => rfl
  | succ n ih =>
    rw [stream] at ih ⊢
    rw [List.replicate_succ, List.flatMap_cons, List.length_append, hline, ih]
    omega

theorem admitted_turnEvents {n : ℕ} (hn : n ≠ 0) : Admitted (List.replicate n turnEvent) := by
  have hturn : ∀ e ∈ List.replicate n turnEvent, Tolerated e := by
    intro e he
    rw [List.eq_of_mem_replicate he]
    exact .inr (.inl ⟨completes_turnEvent, fitsUsage_turnEvent⟩)
  exact ⟨fun e he => (tolerated_iff.1 (hturn e he)).1,
    fun e he => (tolerated_iff.1 (hturn e he)).2.1,
    fun e he => (tolerated_iff.1 (hturn e he)).2.2.1,
    fun e he => (tolerated_iff.1 (hturn e he)).2.2.2,
    turnEvent, List.mem_replicate.2 ⟨hn, rfl⟩, completes_turnEvent⟩

/-- A plan and the end of its turn are let pass. -/
theorem inspectEvents_exact_plan :
    Accepted (fun _ => []) (stream [planLine "mesh".toList, turnLine]) ∧
      Admitted [planEvent "mesh".toList, turnEvent] := by
  have hlines : List.Forall₂ Writes [planLine "mesh".toList, turnLine]
      [planEvent "mesh".toList, turnEvent] :=
    .cons (by decide +kernel) (.cons writes_turnLine .nil)
  have haccepted := (inspectEvents_exact (fun _ => []) hlines).2
    (noBreaks_of_all (by decide +kernel)) (by decide +kernel) (admitted_plan _)
  exact ⟨haccepted, ((inspectEvents_exact (fun _ => []) hlines).1 haccepted).2⟩

/-- The events of a stream in which a turn ends as it should. -/
def EndsWell (events : List (List (Text × Json))) : Prop :=
  (∀ e ∈ events, ¬ Terminal e) ∧ (∀ e ∈ events, IsItem e → CarriesAllowed e) ∧
    (∀ e ∈ events, ¬ Terminal e → ¬ IsItem e → Known e) ∧
      ∃ e ∈ events, Completes e ∧ FitsUsage e

/-- A turn that ends as it should does not suffice: another one's usage may be malformed, the
stream may be too long, and a text may hold a line separator. -/
theorem inspectEvents_not_endsWell :
    (∃ lines events, List.Forall₂ Writes lines events ∧
        (∀ line ∈ lines, ∀ c ∈ line, isLineBreak c = false) ∧
        (stream lines).length ≤ inspectionLimit ∧ EndsWell events ∧
        ¬ Accepted (fun _ => []) (stream lines)) ∧
      (∃ lines events, List.Forall₂ Writes lines events ∧
        (∀ line ∈ lines, ∀ c ∈ line, isLineBreak c = false) ∧ Admitted events ∧
        ¬ Accepted (fun _ => []) (stream lines)) ∧
      ∃ lines events, List.Forall₂ Writes lines events ∧ (∀ line ∈ lines, '\n' ∉ line) ∧
        (stream lines).length ≤ inspectionLimit ∧ Admitted events ∧
        ¬ Accepted (fun _ => []) (stream lines) := by
  refine ⟨⟨[turnLine, usageLine], [turnEvent, usageEvent],
      .cons writes_turnLine (.cons writes_usageLine .nil), noBreaks_of_all (by decide +kernel),
      by decide +kernel, ⟨?_, ?_, ?_, ?_⟩, ?_⟩,
    ⟨List.replicate 400000 turnLine, List.replicate 400000 turnEvent, ?_, ?_, ?_, ?_⟩,
    ⟨[planLine ['\u2028'], turnLine], [planEvent ['\u2028'], turnEvent],
      .cons (by decide +kernel) (.cons writes_turnLine .nil), by decide +kernel,
      by decide +kernel, admitted_plan _, ?_⟩⟩
  · unfold Terminal
    decide +kernel
  · unfold IsItem
    have hnone : ∀ e ∈ [turnEvent, usageEvent],
        ¬ TypeIs e ["item.started", "item.updated", "item.completed"] := by decide +kernel
    exact fun e he h => absurd h (hnone e he)
  · unfold Terminal IsItem Known
    decide +kernel
  · exact ⟨turnEvent, List.mem_cons_self, completes_turnEvent, fitsUsage_turnEvent⟩
  · rintro ⟨r, hr⟩
    have hrefused : (inspectEvents (fun _ => [])
        (stream [turnLine, usageLine])).toOption.isSome = false := by decide +kernel
    rw [hr] at hrefused
    cases hrefused
  · exact writes_turnLines 400000
  · intro line hline
    have hturn : ∀ line ∈ [turnLine], ∀ c ∈ line, isLineBreak c = false :=
      noBreaks_of_all (by decide +kernel)
    rw [List.eq_of_mem_replicate hline]
    exact hturn _ List.mem_cons_self
  · exact admitted_turnEvents (by decide)
  · intro h
    have hsize := ((accepted_iff _).1 h).1
    rw [length_turnLines] at hsize
    exact absurd hsize (by decide)
  · rintro ⟨r, hr⟩
    have hrefused : (inspectEvents (fun _ => [])
        (stream [planLine ['\u2028'], turnLine])).toOption.isSome = false := by decide +kernel
    rw [hr] at hrefused
    cases hrefused

end Llm
end OpenFoamAgent
