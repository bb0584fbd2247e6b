/-
# The semantic dictionary projections

`parse_key`, `matching_delimiter`, `find_named_dictionary`,
`_scan_to_statement_end`, `parse_named_dictionary_assignments` and
`parse_top_level_assignments` of `verification/foam_semantics/parser.py`.

The source walks an index over the text; here each loop walks the text that is
left, and an index into it counts from its front. Both projections are one loop
(`assignmentsFrom`) over what stands next in the text (`topLevelEntry`,
`namedEntry`) and what a value says (`topLevelValue`, `namedValue`). The loop runs on fuel, and by
`assignmentsFrom_fuel` the length of the text is always enough.

`_scan_to_statement_end` answers with an index also where no terminator is
left. `assignments_exact` says when the projections are exact: when every
entry that counts is closed by its semicolon, or when the projection is reported
incomplete for another entry.
-/
import OpenFoamAgent.Contracts.FoamReader
import OpenFoamAgent.Engineering.MeshDependencies

namespace OpenFoamAgent
namespace Verification

open Python Contracts Engineering

/-! ### Keys -/

inductive FoamTokenKind where
  | word | string | directive | expansion | unknown
  deriving DecidableEq

inductive PatternState where
  | literal | pattern | indeterminate
  deriving DecidableEq

/-- `FoamKey`. -/
structure FoamKey where
  raw : Text
  value : Text
  tokenKind : FoamTokenKind
  patternState : PatternState
  deriving DecidableEq

/-- `_PATTERN_META`. -/
def patternMeta (c : Char) : Bool :=
  ['.', '*', '+', '?', '(', ')', '|', '[', ']', '{', '}', '^', '$', '\\'].contains c

/-- A quoted key behind its opening quote: its characters, and the text behind the closing
quote. -/
def quotedKey (quote : Char) : Text → Option (Text × Text)
  | [] => none
  | '\\' :: c :: cs => (quotedKey quote cs).map fun r => ('\\' :: c :: r.1, r.2)
  | c :: cs =>
    if c = quote then some ([], cs) else (quotedKey quote cs).map fun r => (c :: r.1, r.2)

/-- The characters of a bare word. -/
def bareCharacter (c : Char) : Bool :=
  !isSpace c && !(['{', '}', '(', ')', ';'].contains c)

/-- `parse_key`: the key, and the text behind it. -/
def parseKey (text : Text) : Option FoamKey × Text :=
  match text.dropWhile isSpace with
  | [] => (none, [])
  | c :: cs =>
    if c = '"' ∨ c = '\'' then
      match quotedKey c cs with
      | some (value, rest) =>
        (some ⟨c :: value ++ [c], value, .string,
          if value.any patternMeta then .pattern else .literal⟩, rest)
      | none => (some ⟨c :: cs, c :: cs, .unknown, .indeterminate⟩, [])
    else
      let raw := (c :: cs).takeWhile bareCharacter
      let rest := (c :: cs).dropWhile bareCharacter
      if raw = [] then (none, cs)
      else if c = '$' then (some ⟨raw, raw, .expansion, .indeterminate⟩, rest)
      else if c = '#' then (some ⟨raw, raw, .directive, .indeterminate⟩, rest)
      else (some ⟨raw, raw, .word, .literal⟩, rest)

/-! ### Delimiters and statements -/

/-- The loop of `matching_delimiter`: the index of the delimiter that closes the first one. -/
def matchingDelimiter (opener closer : Char) : ℤ → QuoteScan → Text → Option ℕ
  | _, _, [] => none
  | depth, .plain, c :: cs =>
    if c = '"' ∨ c = '\'' then (matchingDelimiter opener closer depth (.quoted c) cs).map (· + 1)
    else if c = opener then (matchingDelimiter opener closer (depth + 1) .plain cs).map (· + 1)
    else if c = closer then
      if depth - 1 = 0 then some 0
      else (matchingDelimiter opener closer (depth - 1) .plain cs).map (· + 1)
    else (matchingDelimiter opener closer depth .plain cs).map (· + 1)
  | depth, quote, c :: cs => (matchingDelimiter opener closer depth (quote.next c) cs).map (· + 1)

/-- `matching_delimiter(text, 0, "{", "}")`. -/
def matchingBrace (text : Text) : Option ℕ := matchingDelimiter '{' '}' 0 .plain text

/-- The variables of `_scan_to_statement_end`. -/
structure StatementScan where
  quote : QuoteScan := .plain
  round : ℕ := 0
  square : ℕ := 0
  curly : ℕ := 0
  deriving DecidableEq

namespace StatementScan

/-- The scan returns at this character. -/
def stops (closing : Char) (s : StatementScan) (c : Char) : Bool :=
  s.quote = .plain &&
    ((c == ')' && s.round == 0 && closing == ')') ||
      (c == '}' && s.curly == 0 && closing == '}') ||
      (c == ';' && s.round == 0 && s.square == 0 && s.curly == 0))

/-- The scan behind one more character. -/
def next (s : StatementScan) (c : Char) : StatementScan :=
  match s.quote with
  | .plain =>
    { quote := QuoteScan.plain.next c
      round := if c = '(' then s.round + 1 else if c = ')' then s.round - 1 else s.round
      square := if c = '[' then s.square + 1 else if c = ']' then s.square - 1 else s.square
      curly := if c = '{' then s.curly + 1 else if c = '}' then s.curly - 1 else s.curly }
  | quote => { s with quote := quote.next c }

/-- The scan behind a text. -/
def behind (s : StatementScan) (t : Text) : StatementScan := t.foldl next s

end StatementScan

/-- The loop of `_scan_to_statement_end`: the index at which it returns. -/
def statementEnd (closing : Char) : StatementScan → Text → Option ℕ
  | _, [] => none
  | s, c :: cs => if s.stops closing c then some 0 else (statementEnd closing (s.next c) cs).map (· + 1)

/-- `_scan_to_statement_end`, from the front of the text: behind the loop it returns
`max(index, len(text) - 1)`. -/
def scanToStatementEnd (closing : Char) (text : Text) : ℕ :=
  (statementEnd closing {} text).getD (text.length - 1)

/-! ### Entries -/

/-- What one turn of the loop over a dictionary finds. -/
inductive FoamStep where
  | finished
  /-- No key stands here. -/
  | skipped (rest : Text)
  /-- `complete = False`. -/
  | dynamic (rest : Text)
  /-- `return result, False`. -/
  | unfinished
  /-- A structured entry. -/
  | dictionary (key rest : Text)
  /-- A key, and the text from its value on. -/
  | assigned (key tail : Text)
  deriving DecidableEq

/-- One turn of the loop of `parse_top_level_assignments`. -/
def topLevelEntry (text : Text) : FoamStep :=
  if text.dropWhile isSpace = [] then .finished
  else
    match parseKey text with
    | (none, rest) => .skipped rest
    | (some key, afterKey) =>
      let tail := afterKey.dropWhile isSpace
      if key.patternState = .indeterminate then
        -- a directive takes its line, an expansion its statement
        if key.tokenKind = .directive then .dynamic ((tail.dropWhile (· ≠ '\n')).drop 1)
        else .dynamic (tail.drop (scanToStatementEnd '}' tail + 1))
      else if tail.head? = some '{' then
        match matchingBrace tail with
        | none => .unfinished
        | some brace => .dictionary key.value (tail.drop (brace + 1))
      else .assigned key.value tail

/-- One turn of the loop of `parse_named_dictionary_assignments`. -/
def namedEntry (body : Text) : FoamStep :=
  if body.dropWhile isSpace = [] then .finished
  else
    match parseKey body with
    | (none, rest) => .skipped rest
    | (some key, afterKey) =>
      if key.patternState ≠ .literal then
        .dynamic (afterKey.drop (scanToStatementEnd '}' afterKey + 1))
      else
        let tail := afterKey.dropWhile isSpace
        if tail.head? = some '{' then
          match matchingBrace tail with
          | none => .dynamic []
          | some brace => .dynamic (tail.drop (brace + 1))
        else .assigned key.value tail

/-- What `parse_top_level_assignments` makes of the text of a value. -/
def topLevelValue (raw : Text) : Option Text := if raw = [] then none else some raw

/-- The characters that `strip('"\'')` takes away. -/
def isQuote (c : Char) : Bool := c == '"' || c == '\''

/-- What `parse_named_dictionary_assignments` makes of the text of a value. -/
def namedValue (raw : Text) : Option Text :=
  if raw = [] ∨ raw.head? = some '$' ∨ raw.head? = some '#' then none
  else
    let value := stripBy isQuote (raw.takeWhile fun c => !isSpace c)
    if value = [] then none else some value

/-- The text `text[j:semi].strip()` of a value. -/
def rawValue (tail : Text) : Text := strip (tail.take (scanToStatementEnd '}' tail))

/-- The loop of both projections. -/
def assignmentsFrom (step : Text → FoamStep) (value : Text → Option Text) :
    ℕ → Dict Text Text → Bool → Text → Dict Text Text × Bool
  | 0, result, _, _ => (result, false)
  | fuel + 1, result, complete, text =>
    match step text with
    | .finished => (result, complete)
    | .skipped rest => assignmentsFrom step value fuel result complete rest
    | .dynamic rest => assignmentsFrom step value fuel result false rest
    | .unfinished => (result, false)
    | .dictionary key rest =>
      assignmentsFrom step value fuel (result.insert key "<dictionary>".toList) complete rest
    | .assigned key tail =>
      let rest := tail.drop (scanToStatementEnd '}' tail + 1)
      match value (rawValue tail) with
      | some literal => assignmentsFrom step value fuel (result.insert key literal) complete rest
      | none => assignmentsFrom step value fuel result false rest

/-- `parse_top_level_assignments`. -/
def parseTopLevelAssignments (text : Text) : Dict Text Text × Bool :=
  let clean := stripComments text
  assignmentsFrom topLevelEntry topLevelValue (clean.length + 1) ∅ true clean

/-! ### A named dictionary -/

section
-- the class `\w` of the `re` module: outside ASCII it is a table of the standard library
variable (isWord : Char → Bool)

/-- `\b` between two characters. -/
def wordBoundary (before after : Option Char) : Bool := before.any isWord != after.any isWord

/-- `re.search(rf"\b{re.escape(name)}\b", text)`, behind a character: where the match ends. -/
def findWord (name : Text) : Option Char → Text → Option ℕ
  | behind, text =>
    if wordBoundary isWord behind text.head? ∧ name.isPrefixOf text ∧
        wordBoundary isWord (name.getLast?.or behind) (text.drop name.length).head? then
      some name.length
    else
      match text with
      | [] => none
      | c :: cs => (findWord name (some c) cs).map (· + 1)

/-- `find_named_dictionary`. -/
def findNamedDictionary (text name : Text) : Option ℕ :=
  let clean := stripComments text
  (findWord isWord name none clean).bind fun stop =>
    let gap := (clean.drop stop).takeWhile (· ≠ '{')
    if '{' ∈ clean.drop stop then some (stop + gap.length) else none

/-- The text between the braces of a named dictionary. -/
def namedDictionaryBody (text name : Text) : Option Text :=
  let clean := stripComments text
  (findNamedDictionary isWord clean name).bind fun brace =>
    (matchingBrace (clean.drop brace)).map fun stop => (clean.drop (brace + 1)).take (stop - 1)

/-- `parse_named_dictionary_assignments`. -/
def parseNamedDictionaryAssignments (text name : Text) : Dict Text Text × Bool :=
  match namedDictionaryBody isWord text name with
  | none => (∅, false)
  | some body => assignmentsFrom namedEntry namedValue (body.length + 1) ∅ true body

end

/-- Comments, quoted keys, a list over two lines, a directive and a named dictionary are read as
the source reads them. -/
example :
    let entries := parseTopLevelAssignments "a 1; // b 2;\n\"c d\" (1\n 2); e \x7b f 1; \x7d".toList
    let mapping := parseNamedDictionaryAssignments isAsciiWord
      "xs 1; s\n\x7b a fluid; b \"solid\"; \x7d".toList "s".toList
    ["a", "b", "c d", "e", "f"].map (fun key => entries.1.get key.toList) =
        [some "1".toList, none, some "(1\n 2)".toList, some "<dictionary>".toList, none] ∧
      entries.2 ∧ ["a", "b"].map (fun key => mapping.1.get key.toList) =
        [some "fluid".toList, some "solid".toList] ∧ mapping.2 ∧
      (parseTopLevelAssignments "#include \"x\"\na 1;".toList).2 = false := by
  decide +kernel

/-! ### Fuel -/

theorem quotedKey_length {quote : Char} {text : Text} {r : Text × Text}
    (h : quotedKey quote text = some r) : r.2.length < text.length := by
  fun_induction quotedKey quote text generalizing r with
  | case1 => cases h
  | case2 c cs ih =>
    obtain ⟨r', hr', rfl⟩ := Option.map_eq_some_iff.1 h
    have := ih hr'
    simp only [List.length_cons]
    omega
  | case3 cs => 
    cases h
    simp
  | case4 c cs hescape hquote ih =>
    obtain ⟨r', hr', rfl⟩ := Option.map_eq_some_iff.1 h
    exact (ih hr').trans (Nat.lt_succ_self _)

/-- Every key takes characters from the text. -/
theorem parseKey_length {text : Text} (h : text.dropWhile isSpace ≠ []) :
    (parseKey text).2.length < text.length := by
  obtain ⟨c, cs, htext⟩ := List.exists_cons_of_ne_nil h
  have hlength : (c :: cs).length ≤ text.length := by
    rw [← htext]
    exact List.length_dropWhile_le _ _
  refine lt_of_lt_of_le ?_ hlength
  unfold parseKey
  rw [htext]
  dsimp only
  split_ifs with hquote hraw
  · split
    · rename_i value rest hkey
      exact (quotedKey_length hkey).trans (Nat.lt_succ_self _)
    · simp
  · simp
  all_goals
    -- the word takes the first character
    have hc : bareCharacter c = true := by
      by_contra hc
      exact hraw (List.takeWhile_cons_of_neg hc)
    rw [List.dropWhile_cons_of_pos hc]
    exact Nat.lt_succ_of_le (List.length_dropWhile_le _ _)

/-- The text behind a turn of the loop, if the loop goes on. -/
def FoamStep.rest : FoamStep → Option Text
  | .finished | .unfinished => none
  | .skipped rest | .dynamic rest | .dictionary _ rest => some rest
  | .assigned _ tail => some (tail.drop (scanToStatementEnd '}' tail + 1))

theorem topLevelEntry_length {text rest : Text} (h : (topLevelEntry text).rest = some rest) :
    rest.length < text.length := by
  unfold topLevelEntry at h
  split at h
  · cases h
  rename_i htext
  have hkey := parseKey_length htext
  split at h
  · rename_i rest' hparse
    obtain rfl := Option.some.inj h
    rwa [hparse] at hkey
  rename_i key afterKey hparse
  rw [hparse] at hkey
  have htail : (afterKey.dropWhile isSpace).length < text.length :=
    (List.length_dropWhile_le _ _).trans_lt hkey
  have hdrop : ∀ n, ((afterKey.dropWhile isSpace).drop n).length < text.length := fun n =>
    (List.drop_sublist n _).length_le.trans_lt htail
  dsimp only at h
  split_ifs at h
  · obtain rfl := Option.some.inj h
    exact ((List.drop_sublist 1 _).length_le.trans (List.length_dropWhile_le _ _)).trans_lt htail
  · obtain rfl := Option.some.inj h
    exact hdrop _
  · split at h
    · cases h
    · obtain rfl := Option.some.inj h
      exact hdrop _
  · obtain rfl := Option.some.inj h
    exact hdrop _

theorem namedEntry_length {body rest : Text} (h : (namedEntry body).rest = some rest) :
    rest.length < body.length := by
  unfold namedEntry at h
  split at h
  · cases h
  rename_i hbody
  have hkey := parseKey_length hbody
  split at h
  · rename_i rest' hparse
    obtain rfl := Option.some.inj h
    rwa [hparse] at hkey
  rename_i key afterKey hparse
  rw [hparse] at hkey
  have hdrop : ∀ n, ((afterKey.dropWhile isSpace).drop n).length < body.length := fun n =>
    ((List.drop_sublist n _).length_le.trans (List.length_dropWhile_le _ _)).trans_lt hkey
  dsimp only at h
  split_ifs at h
  · obtain rfl := Option.some.inj h
    exact (List.drop_sublist _ _).length_le.trans_lt hkey
  · split at h
    · obtain rfl := Option.some.inj h
      exact Nat.zero_lt_of_lt hkey
    · obtain rfl := Option.some.inj h
      exact hdrop _
  · obtain rfl := Option.some.inj h
    exact hdrop _

/-- The turns of the loop over a text. -/
def stepsFrom (step : Text → FoamStep) : ℕ → Text → List FoamStep
  | 0, _ => [.unfinished]
  | fuel + 1, text =>
    step text :: (step text).rest.elim [] (stepsFrom step fuel)

/-- The loop ends by itself: with more turns than characters, their number does not matter. -/
theorem stepsFrom_fuel {step : Text → FoamStep}
    (hstep : ∀ text rest, (step text).rest = some rest → rest.length < text.length)
    {fuel fuel' : ℕ} {text : Text} (h : text.length < fuel) (h' : text.length < fuel') :
    stepsFrom step fuel text = stepsFrom step fuel' text := by
  induction fuel generalizing fuel' text with
  | zero => omega
  | succ n ih =>
    obtain ⟨m, rfl⟩ : ∃ m, fuel' = m + 1 := ⟨fuel' - 1, by omega⟩
    rw [stepsFrom, stepsFrom]
    cases hrest : (step text).rest with
    | none => rfl
    | some rest =>
      have hlength := hstep text rest hrest
      exact congrArg (step text :: ·) (ih (by omega) (by omega))

/-! ### What the projections say -/

namespace FoamStep

/-- The key of an entry. -/
def key : FoamStep → Option Text
  | .dictionary key _ | .assigned key _ => some key
  | _ => none

/-- The turn makes the projection incomplete. -/
def hinders (value : Text → Option Text) : FoamStep → Bool
  | .dynamic _ | .unfinished => true
  | .assigned _ tail => (value (rawValue tail)).isNone
  | _ => false

/-- What the turn records under its key. -/
def recorded (value : Text → Option Text) : FoamStep → Option Text
  | .dictionary _ _ => some "<dictionary>".toList
  | .assigned _ tail => value (rawValue tail)
  | _ => none

/-- The entries behind a turn. -/
def record (value : Text → Option Text) (result : Dict Text Text) (s : FoamStep) : Dict Text Text :=
  match s.key, s.recorded value with
  | some key, some literal => result.insert key literal
  | _, _ => result

end FoamStep

/-- The last entry of a key. -/
def latest (key : Text) (steps : List FoamStep) : Option FoamStep :=
  steps.reverse.find? fun s => s.key = some key

/-- The loop records its turns one by one, and is complete when none of them hinders it. -/
theorem assignmentsFrom_eq (step : Text → FoamStep) (value : Text → Option Text) (fuel : ℕ)
    (result : Dict Text Text) (complete : Bool) (text : Text) :
    assignmentsFrom step value fuel result complete text =
      ((stepsFrom step fuel text).foldl (FoamStep.record value) result,
        complete && (stepsFrom step fuel text).all fun s => !s.hinders value) := by
  induction fuel generalizing result complete text with
  | zero => simp [assignmentsFrom, stepsFrom, FoamStep.record, FoamStep.hinders, FoamStep.key]
  | succ n ih =>
    rw [assignmentsFrom, stepsFrom, List.foldl_cons, List.all_cons]
    cases step text with
    | finished => simp [FoamStep.rest, FoamStep.record, FoamStep.hinders, FoamStep.key]
    | skipped rest | dynamic rest | dictionary key rest =>
      simp [ih, FoamStep.rest, FoamStep.record, FoamStep.hinders, FoamStep.key, FoamStep.recorded]
    | unfinished => simp [FoamStep.rest, FoamStep.record, FoamStep.hinders, FoamStep.key]
    | assigned key tail =>
      cases hvalue : value (rawValue tail) <;>
        simp [ih, hvalue, FoamStep.rest, FoamStep.record, FoamStep.hinders, FoamStep.key,
          FoamStep.recorded]

/-- Under a key stands what its last entry recorded, when no turn hindered the loop. -/
theorem get_record {value : Text → Option Text} {steps : List FoamStep}
    (h : ∀ s ∈ steps, s.hinders value = false) (key : Text) :
    (steps.foldl (FoamStep.record value) ∅).get key =
      (latest key steps).bind (FoamStep.recorded value) := by
  induction steps using List.reverseRecOn with
  | nil => simp [latest]
  | append_singleton front s ih =>
    have ih := ih fun s' hs' => h s' (List.mem_append_left _ hs')
    rw [List.foldl_append, List.foldl_cons, List.foldl_nil]
    unfold latest at ih ⊢
    rw [List.reverse_append, List.reverse_singleton, List.singleton_append, List.find?_cons]
    have hs := h s (List.mem_append_right _ List.mem_cons_self)
    cases s with
    | finished | skipped | dynamic | unfinished => simpa [FoamStep.record, FoamStep.key] using ih
    | dictionary key' rest =>
      by_cases hkey : key' = key
      · subst hkey
        simp [FoamStep.record, FoamStep.key, FoamStep.recorded]
      · simpa [FoamStep.record, FoamStep.key, FoamStep.recorded, hkey,
          Dict.get_insert_of_ne _ _ (Ne.symm hkey)] using ih
    | assigned key' tail =>
      obtain ⟨literal, hliteral⟩ : ∃ literal, value (rawValue tail) = some literal :=
        Option.isSome_iff_exists.1 (by simpa [FoamStep.hinders] using hs)
      by_cases hkey : key' = key
      · subst hkey
        simp [FoamStep.record, FoamStep.key, FoamStep.recorded, hliteral]
      · simpa [FoamStep.record, FoamStep.key, FoamStep.recorded, hliteral, hkey,
          Dict.get_insert_of_ne _ _ (Ne.symm hkey)] using ih

/-! ### Terminators -/

/-- A value is closed by the semicolon behind it: the scan passes over the value, and returns at
the semicolon. -/
structure Terminated (tail value rest : Text) : Prop where
  split : tail = value ++ ';' :: rest
  passed : ∀ front c back, value = front ++ c :: back →
    (StatementScan.behind {} front).stops '}' c = false
  closed : (StatementScan.behind {} value).stops '}' ';' = true

theorem statementEnd_append {closing : Char} {s : StatementScan} {value : Text} {c : Char}
    (rest : Text)
    (hpassed : ∀ front d back, value = front ++ d :: back → (s.behind front).stops closing d = false)
    (hclosed : (s.behind value).stops closing c = true) :
    statementEnd closing s (value ++ c :: rest) = some value.length := by
  induction value generalizing s with
  | nil => exact if_pos hclosed
  | cons d ds ih =>
    have hd : s.stops closing d = false := hpassed [] d ds rfl
    have hds := ih (s := s.next d)
      (fun front e back h => hpassed (d :: front) e back (congrArg (d :: ·) h)) hclosed
    rw [List.cons_append, statementEnd, if_neg (by rw [hd]; exact Bool.false_ne_true), hds]
    rfl

theorem Terminated.rawValue {tail value rest : Text} (h : Terminated tail value rest) :
    rawValue tail = strip value := by
  have hend : scanToStatementEnd '}' tail = value.length := by
    rw [scanToStatementEnd, h.split, statementEnd_append rest h.passed h.closed]
    rfl
  rw [Verification.rawValue, hend, h.split, List.take_left]

/-- Every value that a complete projection returns is the text between its keyword and the
semicolon that closes the last entry of the key; so the last entry of the text has one too. -/
def ReadExactly (steps : List FoamStep) (parsed : Dict Text Text × Bool) : Prop :=
  parsed.2 = true → ∀ key literal, parsed.1.get key = some literal →
    (∃ rest, latest key steps = some (.dictionary key rest) ∧ literal = "<dictionary>".toList) ∨
      ∃ tail value rest, latest key steps = some (.assigned key tail) ∧
        Terminated tail value rest ∧ literal = strip value

/-- Some entry hinders the projection, or the last entry of each key is closed by a semicolon,
behind a value that the projection keeps as it is. -/
def ClosedEntries (value : Text → Option Text) (kept : Text → Prop) (steps : List FoamStep) : Prop :=
  (∃ s ∈ steps, s.hinders value = true) ∨
    ∀ key tail, latest key steps = some (.assigned key tail) →
      ∃ text rest, Terminated tail text rest ∧ kept (strip text)

theorem key_of_latest {key : Text} {steps : List FoamStep} {s : FoamStep}
    (h : latest key steps = some s) : s ∈ steps ∧ s.key = some key := by
  unfold latest at h
  have hkey := List.find?_some h
  exact ⟨List.mem_reverse.1 (List.mem_of_find?_eq_some h), of_decide_eq_true hkey⟩

theorem readExactly_iff {value : Text → Option Text} {kept : Text → Prop}
    (hkept : ∀ raw literal, value raw = some literal → (literal = raw ↔ kept raw))
    (step : Text → FoamStep) (fuel : ℕ) (text : Text) :
    ReadExactly (stepsFrom step fuel text) (assignmentsFrom step value fuel ∅ true text) ↔
      ClosedEntries value kept (stepsFrom step fuel text) := by
  rw [assignmentsFrom_eq]
  generalize stepsFrom step fuel text = steps
  by_cases hhinders : ∃ s ∈ steps, s.hinders value = true
  · refine ⟨fun _ => .inl hhinders, fun _ hcomplete => ?_⟩
    obtain ⟨s, hs, hhinder⟩ := hhinders
    have hplain : steps.all (fun s => !s.hinders value) = true := hcomplete
    have hs' := List.all_eq_true.1 hplain s hs
    rw [hhinder] at hs'
    cases hs'
  have hplain : ∀ s ∈ steps, s.hinders value = false := fun s hs =>
    Bool.eq_false_iff.2 fun h => hhinders ⟨s, hs, h⟩
  have hcomplete : (true && steps.all fun s => !s.hinders value) = true := by
    simpa using hplain
  constructor
  · intro h
    refine .inr fun key tail hlatest => ?_
    obtain ⟨literal, hliteral⟩ : ∃ literal, value (rawValue tail) = some literal :=
      Option.isSome_iff_exists.1
        (by simpa [FoamStep.hinders] using hplain _ (key_of_latest hlatest).1)
    have hget := get_record hplain key
    rw [hlatest] at hget
    rcases h hcomplete key literal (hget.trans hliteral) with ⟨_, hdict, _⟩ | hassigned
    · rw [hlatest] at hdict
      cases hdict
    · obtain ⟨_, text, rest, hlatest', hterminated, rfl⟩ := hassigned
      rw [hlatest] at hlatest'
      cases hlatest'
      rw [hterminated.rawValue] at hliteral
      exact ⟨text, rest, hterminated, (hkept _ _ hliteral).1 rfl⟩
  · intro h _ key literal hget
    have hclosed := h.resolve_left hhinders
    dsimp only at hget
    rw [get_record hplain] at hget
    obtain ⟨s, hlatest, hrecorded⟩ := Option.bind_eq_some_iff.1 hget
    cases s with
    | finished | skipped | dynamic | unfinished => cases hrecorded
    | dictionary key' rest =>
      obtain rfl := Option.some.inj (key_of_latest hlatest).2
      exact .inl ⟨rest, hlatest, (Option.some.inj hrecorded).symm⟩
    | assigned key' tail =>
      obtain rfl := Option.some.inj (key_of_latest hlatest).2
      obtain ⟨text, rest, hterminated, hbare⟩ := hclosed _ tail hlatest
      rw [FoamStep.recorded, hterminated.rawValue] at hrecorded
      exact .inr ⟨tail, text, rest, hlatest, hterminated, (hkept _ _ hrecorded).2 hbare⟩

/-- A value of one word that is not quoted. -/
def BareValue (value : Text) : Prop :=
  (∀ c ∈ value, isSpace c = false) ∧ stripBy isQuote value = value

theorem namedValue_eq_self {raw literal : Text} (h : namedValue raw = some literal) :
    literal = raw ↔ BareValue raw := by
  unfold namedValue at h
  split at h
  · cases h
  dsimp only at h
  split at h
  · cases h
  obtain rfl := Option.some.inj h
  constructor
  · intro heq
    have hword : (raw.takeWhile fun c => !isSpace c) = raw := by
      refine (List.takeWhile_prefix _).sublist.eq_of_length_le ?_
      conv_lhs => rw [← heq]
      exact ((List.rdropWhile_prefix _ _).length_le).trans (List.length_dropWhile_le _ _)
    rw [hword] at heq
    exact ⟨fun c hc => by simpa using List.takeWhile_eq_self_iff.1 hword c hc, heq⟩
  · rintro ⟨hword, hbare⟩
    rw [List.takeWhile_eq_self_iff.2 fun c hc => by simp [hword c hc], hbare]

/-- The turns of `parse_top_level_assignments`. -/
def topLevelSteps (text : Text) : List FoamStep :=
  stepsFrom topLevelEntry ((stripComments text).length + 1) (stripComments text)

/-- The turns of `parse_named_dictionary_assignments`. -/
def namedSteps (isWord : Char → Bool) (text name : Text) : List FoamStep :=
  (namedDictionaryBody isWord text name).elim [.unfinished] fun body =>
    stepsFrom namedEntry (body.length + 1) body

/-- **When the projections are exact.** Where every entry that counts ends with its semicolon, and
where another entry makes the projection incomplete. -/
theorem assignments_exact (isWord : Char → Bool) (text : Text) :
    (ReadExactly (topLevelSteps text) (parseTopLevelAssignments text) ↔
      ClosedEntries topLevelValue (fun _ => True) (topLevelSteps text)) ∧
    ∀ name, ReadExactly (namedSteps isWord text name)
        (parseNamedDictionaryAssignments isWord text name) ↔
      ClosedEntries namedValue BareValue (namedSteps isWord text name) := by
  constructor
  · refine readExactly_iff (fun raw literal h => iff_true_intro ?_) topLevelEntry _ _
    unfold topLevelValue at h
    split at h
    · cases h
    · exact (Option.some.inj h).symm
  · intro name
    unfold namedSteps parseNamedDictionaryAssignments
    cases namedDictionaryBody isWord text name with
    | none => exact ⟨fun _ => .inl ⟨_, List.mem_cons_self, rfl⟩, fun _ h => nomatch h⟩
    | some body => exact readExactly_iff (fun _ _ => namedValue_eq_self) namedEntry _ _

/-- A last entry without a semicolon loses its last character, and the projection is reported
complete. -/
theorem unterminated_entry_cut :
    (parseTopLevelAssignments "endTime 100".toList).2 = true ∧
      (parseTopLevelAssignments "endTime 100".toList).1.get "endTime".toList =
        some "10".toList ∧
      ¬ ReadExactly (topLevelSteps "endTime 100".toList)
        (parseTopLevelAssignments "endTime 100".toList) := by
  have hcomplete : (parseTopLevelAssignments "endTime 100".toList).2 = true := by decide +kernel
  have hget : (parseTopLevelAssignments "endTime 100".toList).1.get "endTime".toList =
      some "10".toList := by
    decide +kernel
  have hlatest : latest "endTime".toList (topLevelSteps "endTime 100".toList) =
      some (.assigned "endTime".toList "100".toList) := by
    decide +kernel
  refine ⟨hcomplete, hget, fun h => ?_⟩
  rcases h hcomplete _ _ hget with ⟨rest, hdict, _⟩ | ⟨tail, value, rest, hassigned, hclosed, _⟩
  · rw [hlatest] at hdict
    cases hdict
  · rw [hlatest] at hassigned
    cases hassigned
    have hmem : ';' ∈ "100".toList := by
      rw [hclosed.split]
      exact List.mem_append_right _ List.mem_cons_self
    exact absurd hmem (by decide)

end Verification
end OpenFoamAgent
