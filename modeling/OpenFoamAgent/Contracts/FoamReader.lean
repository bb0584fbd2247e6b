/-
# The structural dictionary reader

`_strip_foam_comments`, `_matching_brace`, `_top_level_entry_payloads`,
`canonical_payload` and `literal_entry_payload` of `contracts/execution.py`: the
projection of a dictionary text that repair authorization compares.

The source walks an index over the text; here each loop walks the text that is
left. `entriesFrom` is the only loop whose step takes more than one
character. It runs on fuel, and by `entriesFrom_fuel` the length of the text is
always enough.
-/
import Mathlib.Data.List.TakeWhile
import OpenFoamAgent.Python.Text

namespace OpenFoamAgent
namespace Contracts

open Python

/-! ### Quotes and comments -/

/-- Whether a scan is inside a quoted string, or behind a backslash in one. -/
inductive QuoteScan where
  | plain
  | quoted (quote : Char)
  | escaped (quote : Char)
  deriving DecidableEq

/-- The scan behind one more character. -/
def QuoteScan.next : QuoteScan → Char → QuoteScan
  | .plain, c => if c = '"' ∨ c = '\'' then .quoted c else .plain
  | .quoted q, c => if c = '\\' then .escaped q else if c = q then .plain else .quoted q
  | .escaped q, _ => .quoted q

/-- Where the loop of `_strip_foam_comments` stands: in the text, in a line comment, on the
`*` that opens a block comment, in the block, or on the `/` that closes it. -/
inductive CommentScan where
  | code (quote : QuoteScan)
  | line
  | opening
  | block
  | closing
  deriving DecidableEq

/-- The loop of `_strip_foam_comments`. -/
def stripFrom : CommentScan → Text → Text
  | _, [] => []
  | .code .plain, c :: cs =>
    if c = '/' ∧ cs.head? = some '/' then stripFrom .line cs
    else if c = '/' ∧ cs.head? = some '*' then stripFrom .opening cs
    else c :: stripFrom (.code (QuoteScan.plain.next c)) cs
  | .code quote, c :: cs => c :: stripFrom (.code (quote.next c)) cs
  | .line, c :: cs => if c = '\n' then c :: stripFrom (.code .plain) cs else stripFrom .line cs
  | .opening, _ :: cs => stripFrom .block cs
  | .block, c :: cs =>
    if c = '*' ∧ cs.head? = some '/' then stripFrom .closing cs else stripFrom .block cs
  | .closing, _ :: cs => stripFrom (.code .plain) cs

/-- `_strip_foam_comments`. -/
def stripFoamComments (text : Text) : Text := stripFrom (.code .plain) text

/-! ### Entries -/

/-- `_matching_brace`, from a brace on: the text up to and with the matching brace, and the
text behind it. -/
def takeBlock : ℕ → QuoteScan → Text → Option (Text × Text)
  | _, _, [] => none
  | depth, .plain, c :: cs =>
    if c = '}' ∧ depth ≤ 1 then some ([c], cs)
    else
      let depth' := if c = '{' then depth + 1 else if c = '}' then depth - 1 else depth
      (takeBlock depth' (QuoteScan.plain.next c) cs).map fun r => (c :: r.1, r.2)
  | depth, quote, c :: cs =>
    (takeBlock depth (quote.next c) cs).map fun r => (c :: r.1, r.2)

/-- A value up to its semicolon: the value, whether it holds a `{` outside quotes, and the
text behind the semicolon. -/
def takePayload : ℕ → ℕ → QuoteScan → Text → Option (Text × Bool × Text)
  | _, _, _, [] => none
  | round, square, .plain, c :: cs =>
    if c = ';' ∧ round = 0 ∧ square = 0 then some ([], false, cs)
    else
      let round' := if c = '(' then round + 1 else if c = ')' then round - 1 else round
      let square' := if c = '[' then square + 1 else if c = ']' then square - 1 else square
      (takePayload round' square' (QuoteScan.plain.next c) cs).map fun r =>
        (c :: r.1, r.2.1 || c == '{', r.2.2)
  | round, square, quote, c :: cs =>
    (takePayload round square (quote.next c) cs).map fun r => (c :: r.1, r.2.1, r.2.2)

/-- The first character of `[A-Za-z_][A-Za-z0-9_.-]*`. -/
def keyStart (c : Char) : Bool := isAsciiLetter c || c == '_'

/-- The other characters of `[A-Za-z_][A-Za-z0-9_.-]*`. -/
def keyCharacter (c : Char) : Bool := isAsciiWord c || c == '.' || c == '-'

theorem keyCharacter_of_keyStart {c : Char} (h : keyStart c) : keyCharacter c := by
  unfold keyStart at h
  unfold keyCharacter isAsciiWord
  rcases Bool.or_eq_true_iff.1 h with h | h <;> simp [h]

/-- The entries of a dictionary, in their order; the keys are distinct. -/
abbrev Entries := List (Text × Text)

/-- What one turn of the loop of `_top_level_entry_payloads` finds. -/
inductive EntryStep where
  /-- The text is read. -/
  | finished
  /-- `return result, False`. -/
  | incomplete
  /-- An entry: its payload, whether the reading stays complete, the text behind it. -/
  | entry (key payload : Text) (complete : Bool) (rest : Text)
  deriving DecidableEq

/-- The entry of the key at the start of `text`. -/
def readValue (key text : Text) : EntryStep :=
  match text with
  | '{' :: _ =>
    match takeBlock 0 .plain text with
    | none => .incomplete
    | some (block, rest) => .entry key (strip block) true rest
  | _ =>
    match takePayload 0 0 .plain text with
    | none => .incomplete
    | some (value, brace, rest) =>
      .entry key (strip value) (!brace && !(strip value).isEmpty) rest

/-- One turn of the loop of `_top_level_entry_payloads`. -/
def readEntry (result : Entries) (text : Text) : EntryStep :=
  match text.dropWhile isSpace with
  | [] => .finished
  | c :: cs =>
    if c = '#' ∨ !keyStart c then .incomplete
    else
      let key := c :: cs.takeWhile keyCharacter
      if key ∈ result.map Prod.fst then .incomplete
      else readValue key ((cs.dropWhile keyCharacter).dropWhile isSpace)

/-- The loop of `_top_level_entry_payloads`. -/
def entriesFrom : ℕ → Entries → Bool → Text → Entries × Bool
  | 0, result, _, _ => (result, false)
  | fuel + 1, result, complete, text =>
    match readEntry result text with
    | .finished => (result, complete)
    | .incomplete => (result, false)
    | .entry key payload entryComplete rest =>
      entriesFrom fuel (result ++ [(key, payload)]) (complete && entryComplete) rest

/-- `_top_level_entry_payloads`: the entries, and whether the text was read completely. -/
def topLevelEntryPayloads (text : Text) : Entries × Bool :=
  let clean := stripFoamComments text
  entriesFrom (clean.length + 1) [] true clean

/-- `entries.get(key)`. -/
def Entries.get (entries : Entries) (key : Text) : Option Text := entries.lookup key

/-! ### Fuel -/

theorem takeBlock_length {depth : ℕ} {quote : QuoteScan} {text : Text} {r : Text × Text}
    (h : takeBlock depth quote text = some r) : r.2.length < text.length := by
  induction text generalizing depth quote r with
  | nil => simp [takeBlock] at h
  | cons c cs ih =>
    cases quote with
    | plain =>
      rw [takeBlock] at h
      split_ifs at h
      · cases h; simp
      all_goals
        obtain ⟨r', hr', rfl⟩ := Option.map_eq_some_iff.1 h
        exact (ih hr').trans (Nat.lt_succ_self _)
    | quoted q | escaped q =>
      rw [takeBlock] at h
      · obtain ⟨r', hr', rfl⟩ := Option.map_eq_some_iff.1 h
        exact (ih hr').trans (Nat.lt_succ_self _)
      · exact nofun

theorem takePayload_length {round square : ℕ} {quote : QuoteScan} {text : Text}
    {r : Text × Bool × Text} (h : takePayload round square quote text = some r) :
    r.2.2.length < text.length := by
  induction text generalizing round square quote r with
  | nil => simp [takePayload] at h
  | cons c cs ih =>
    cases quote with
    | plain =>
      rw [takePayload] at h
      split_ifs at h
      · cases h; simp
      all_goals
        obtain ⟨r', hr', rfl⟩ := Option.map_eq_some_iff.1 h
        exact (ih hr').trans (Nat.lt_succ_self _)
    | quoted q | escaped q =>
      rw [takePayload] at h
      · obtain ⟨r', hr', rfl⟩ := Option.map_eq_some_iff.1 h
        exact (ih hr').trans (Nat.lt_succ_self _)
      · exact nofun

theorem readValue_length {key text : Text} {k p : Text} {complete : Bool} {rest : Text}
    (h : readValue key text = .entry k p complete rest) : rest.length < text.length := by
  unfold readValue at h
  split at h
  · split at h
    · cases h
    · rename_i hb
      cases h
      exact takeBlock_length hb
  · split at h
    · cases h
    · rename_i hp
      cases h
      exact takePayload_length hp

/-- Every entry takes characters from the text. -/
theorem readEntry_length {result : Entries} {text : Text} {k p : Text} {complete : Bool}
    {rest : Text} (h : readEntry result text = .entry k p complete rest) :
    rest.length < text.length := by
  unfold readEntry at h
  split at h
  · cases h
  · rename_i c cs hdrop
    have hlen : (c :: cs).length ≤ text.length := by
      rw [← hdrop]; exact List.length_dropWhile_le _ _
    dsimp only at h
    split_ifs at h
    have hv := readValue_length h
    have h1 := List.length_dropWhile_le isSpace (cs.dropWhile keyCharacter)
    have h2 := List.length_dropWhile_le keyCharacter cs
    simp only [List.length_cons] at hlen
    omega

/-- The loop of `_top_level_entry_payloads` ends within one turn for each character: more
fuel than characters never matters. -/
theorem entriesFrom_fuel {n m : ℕ} {result : Entries} {complete : Bool} {text : Text}
    (hn : text.length < n) (hm : text.length < m) :
    entriesFrom n result complete text = entriesFrom m result complete text := by
  induction n generalizing m result complete text with
  | zero => omega
  | succ n ih =>
    obtain ⟨m, rfl⟩ := Nat.exists_eq_add_one_of_ne_zero (n := m) (by omega)
    unfold entriesFrom
    split
    · rfl
    · rfl
    · rename_i hstep
      have hlen := readEntry_length hstep
      exact ih (by omega) (by omega)

/-! ### Payloads -/

/-- The loop of `re.findall` in `canonical_payload`: `skip` characters belong to the last
match. -/
def canonicalFrom : ℕ → Text → List Text
  | _, [] => []
  | skip + 1, _ :: cs => canonicalFrom skip cs
  | 0, c :: cs =>
    if isSpace c then canonicalFrom 0 cs
    else
      let n := match (if c = '"' then quotedLength '"' cs else none) with
        | some n => n
        | none => (cs.takeWhile fun c => !isSpace c).length
      (c :: cs.take n) :: canonicalFrom n cs

/-- `canonical_payload`. -/
def canonicalPayload (value : Option Text) : Option (List Text) := value.map (canonicalFrom 0)

/-- The loop of `literal_entry_payload`. -/
def literalEntryFrom : List Text → Text → Option Text
  | [], payload => some payload
  | part :: parts, payload =>
    let (entries, complete) := topLevelEntryPayloads payload
    if !complete then none
    else
      match entries.get part with
      | none => none
      | some payload' =>
        if parts = [] then some payload'
        else if ['{'].isPrefixOf payload' && ['}'].isSuffixOf payload' then
          literalEntryFrom parts (payload'.drop 1).dropLast
        else none

/-- `literal_entry_payload`. -/
def literalEntryPayload (text entryPath : Text) : Option Text :=
  match literalEntryFrom (entryPath.splitOn '.') text with
  | none => none
  | some payload => if '#' ∈ payload ∨ '$' ∈ payload then none else some payload

/-! ### Canonical payloads of single words -/

theorem canonicalFrom_drop (n : ℕ) (t : Text) : canonicalFrom n t = canonicalFrom 0 (t.drop n) := by
  induction n generalizing t with
  | zero => rw [List.drop_zero]
  | succ n ih =>
    cases t with
    | nil => simp [canonicalFrom]
    | cons c cs => rw [canonicalFrom, ih, List.drop_succ_cons]

theorem canonicalFrom_of_spaces {t : Text} (h : ∀ c ∈ t, isSpace c) : canonicalFrom 0 t = [] := by
  induction t with
  | nil => rfl
  | cons c cs ih =>
    rw [canonicalFrom, if_pos (h c List.mem_cons_self)]
    exact ih fun c hc => h c (List.mem_cons_of_mem _ hc)

theorem spaces_of_canonicalFrom {t : Text} (h : canonicalFrom 0 t = []) : ∀ c ∈ t, isSpace c := by
  induction t with
  | nil => simp
  | cons c cs ih =>
    rw [canonicalFrom] at h
    split_ifs at h with hs
    rintro d (_ | ⟨_, hd⟩)
    · exact hs
    · exact ih h d hd

/-- Stripping takes the white space around a word off. -/
theorem strip_spaces_word {before word after : Text} (hb : ∀ c ∈ before, isSpace c)
    (ha : ∀ c ∈ after, isSpace c) (hne : word ≠ []) (hw : ∀ c ∈ word, ¬ isSpace c) :
    strip (before ++ word ++ after) = word := by
  have hleft : (before ++ word ++ after).dropWhile isSpace = word ++ after := by
    rw [List.append_assoc, List.dropWhile_append_of_pos hb]
    obtain ⟨c, cs, rfl⟩ := List.exists_cons_of_ne_nil hne
    rw [List.cons_append, List.dropWhile_cons_of_neg (hw c List.mem_cons_self)]
  rw [strip, stripBy, hleft]
  clear hleft
  induction after using List.reverseRecOn with
  | nil =>
    rw [List.append_nil, List.rdropWhile_eq_self_iff]
    exact fun hl => hw _ (List.getLast_mem hl)
  | append_singleton after c ih =>
    rw [← List.append_assoc, List.rdropWhile_concat_pos _ _ _ (ha c (by simp))]
    exact ih fun c hc => ha c (by simp [hc])

/-- A text that is one word with white space around it has that word as its payload. -/
theorem canonicalFrom_word {before word after : Text} (hb : ∀ c ∈ before, isSpace c)
    (ha : ∀ c ∈ after, isSpace c) (hne : word ≠ []) (hw : ∀ c ∈ word, ¬ isSpace c ∧ c ≠ '"') :
    canonicalFrom 0 (before ++ word ++ after) = [word] := by
  induction before with
  | nil =>
    obtain ⟨c, cs, rfl⟩ := List.exists_cons_of_ne_nil hne
    obtain ⟨hc, hq⟩ := hw c List.mem_cons_self
    have hspan : ((cs ++ after).takeWhile fun c => !isSpace c) = cs := by
      rw [List.takeWhile_append_of_pos fun d hd => by
        simp [(hw d (List.mem_cons_of_mem _ hd)).1]]
      cases after with
      | nil => simp
      | cons d ds => simp [ha d List.mem_cons_self]
    rw [List.nil_append, List.cons_append, canonicalFrom, if_neg hc, if_neg hq]
    simp only [hspan]
    rw [canonicalFrom_drop, List.take_left, List.drop_left, canonicalFrom_of_spaces ha]
  | cons d ds ih =>
    rw [List.cons_append, List.cons_append, canonicalFrom, if_pos (hb d List.mem_cons_self)]
    exact ih fun c hc => hb c (List.mem_cons_of_mem _ hc)

/-- A text whose payload is one word without quotes is that word with white space around it. -/
theorem eq_word_of_canonicalFrom {t word : Text} (h : canonicalFrom 0 t = [word])
    (hq : ∀ c ∈ word, c ≠ '"') :
    ∃ before after, t = before ++ word ++ after ∧ (∀ c ∈ before, isSpace c) ∧
      ∀ c ∈ after, isSpace c := by
  induction t with
  | nil => cases h
  | cons c cs ih =>
    rw [canonicalFrom] at h
    split_ifs at h with hs hquote
    · obtain ⟨before, after, rfl, hb, ha⟩ := ih h
      refine ⟨c :: before, after, rfl, ?_, ha⟩
      rintro d (_ | ⟨_, hd⟩)
      · exact hs
      · exact hb d hd
    · obtain ⟨hword, -⟩ := List.cons.inj h
      exact absurd hquote (hq c (hword ▸ List.mem_cons_self))
    · obtain ⟨rfl, hrest⟩ := List.cons.inj h
      rw [canonicalFrom_drop] at hrest
      refine ⟨[], _, ?_, fun _ hd => absurd hd List.not_mem_nil, spaces_of_canonicalFrom hrest⟩
      rw [List.nil_append, List.cons_append, List.take_append_drop]

theorem exists_spaces_strip (t : Text) :
    ∃ before after, t = before ++ strip t ++ after ∧ (∀ c ∈ before, isSpace c) ∧
      ∀ c ∈ after, isSpace c := by
  refine ⟨t.takeWhile isSpace, (t.dropWhile isSpace).rtakeWhile isSpace, ?_,
    fun c hc => List.mem_takeWhile_imp hc, fun c hc => List.mem_rtakeWhile_imp hc⟩
  rw [List.append_assoc, strip, stripBy, List.rdropWhile_append_rtakeWhile,
    List.takeWhile_append_dropWhile]

/-- Two payloads that are the same up to white space outside strings, one of which is a word
without quotes, strip to the same word. -/
theorem strip_eq_of_canonicalFrom {s t : Text} (h : canonicalFrom 0 s = canonicalFrom 0 t)
    (hne : strip t ≠ []) (hw : ∀ c ∈ strip t, ¬ isSpace c ∧ c ≠ '"') : strip s = strip t := by
  obtain ⟨before, after, ht, hb, ha⟩ := exists_spaces_strip t
  have hword : canonicalFrom 0 t = [strip t] := by
    conv_lhs => rw [ht]
    exact canonicalFrom_word hb ha hne hw
  obtain ⟨before', after', hs, hb', ha'⟩ :=
    eq_word_of_canonicalFrom (h.trans hword) fun c hc => (hw c hc).2
  rw [hs]
  exact strip_spaces_word hb' ha' hne fun c hc => (hw c hc).1

/-! ### Complete readings -/

theorem strip_ne_nil {t : Text} {c : Char} (hc : c ∈ t) (hs : ¬ isSpace c) : strip t ≠ [] :=
  fun hnil => hs (stripBy_eq_nil.1 hnil c hc)

theorem readValue_payload {key text k payload rest : Text}
    (h : readValue key text = .entry k payload true rest) : payload ≠ [] := by
  unfold readValue at h
  split at h
  · split at h
    · cases h
    · rename_i block rest' hblock
      cases h
      rw [takeBlock, if_neg (by decide)] at hblock
      obtain ⟨r, -, heq⟩ := Option.map_eq_some_iff.1 hblock
      obtain ⟨rfl, -⟩ := Prod.mk.inj heq
      exact strip_ne_nil List.mem_cons_self (by decide)
  · split at h
    · cases h
    · rename_i value brace rest' hvalue
      injection h with _ hpayload hcomplete
      subst hpayload
      intro hnil
      simp [hnil] at hcomplete

/-- An entry that leaves the reading complete has a payload. -/
theorem readEntry_payload {result : Entries} {text key payload rest : Text}
    (h : readEntry result text = .entry key payload true rest) : payload ≠ [] := by
  unfold readEntry at h
  split at h
  · cases h
  · dsimp only at h
    split_ifs at h
    exact readValue_payload h

/-- The entries of a complete reading have payloads. -/
theorem entriesFrom_payload {fuel : ℕ} {result entries : Entries} {complete : Bool} {text : Text}
    (h : entriesFrom fuel result complete text = (entries, true)) :
    complete = true ∧ ∀ e ∈ entries, e ∈ result ∨ e.2 ≠ [] := by
  induction fuel generalizing result complete text with
  | zero => cases h
  | succ fuel ih =>
    unfold entriesFrom at h
    split at h
    · cases h
      exact ⟨rfl, fun _ he => .inl he⟩
    · cases h
    · rename_i key payload entryComplete rest hstep
      obtain ⟨hc, hall⟩ := ih h
      obtain ⟨hcomplete, rfl⟩ := Bool.and_eq_true_iff.1 hc
      refine ⟨hcomplete, fun e he => ?_⟩
      rcases hall e he with hmem | hne
      · rcases List.mem_append.1 hmem with hmem | hmem
        · exact .inl hmem
        · obtain rfl := List.mem_singleton.1 hmem
          exact .inr (readEntry_payload hstep)
      · exact .inr hne

theorem Entries.mem_of_get {entries : Entries} {key payload : Text}
    (h : entries.get key = some payload) : (key, payload) ∈ entries := by
  unfold Entries.get at h
  induction entries with
  | nil => cases h
  | cons e entries ih =>
    obtain ⟨k, p⟩ := e
    rw [List.lookup_cons] at h
    split at h
    · rename_i heq
      obtain rfl := eq_of_beq heq
      obtain rfl := Option.some.inj h
      exact List.mem_cons_self
    · exact List.mem_cons_of_mem _ (ih h)

theorem Entries.get_eq_none {entries : Entries} {key : Text} (h : key ∉ entries.map Prod.fst) :
    entries.get key = none := by
  rw [Entries.get, List.lookup_eq_none_iff]
  intro e he
  rw [bne_iff_ne]
  rintro rfl
  exact h (List.mem_map_of_mem he)

/-- In a text that is read completely, every entry has a payload. -/
theorem payload_of_complete {text key payload : Text} (hc : (topLevelEntryPayloads text).2)
    (h : (topLevelEntryPayloads text).1.get key = some payload) : payload ≠ [] := by
  have hpair : topLevelEntryPayloads text = ((topLevelEntryPayloads text).1, true) :=
    Prod.ext rfl hc
  unfold topLevelEntryPayloads at hpair
  rcases (entriesFrom_payload hpair).2 _ (Entries.mem_of_get h) with hmem | hne
  · cases hmem
  · exact hne

/-- Comments, quotes, nested blocks and lists are read as the source reads them. -/
example :
    topLevelEntryPayloads "a 1; // x\nb \x7b c (1 2; 3); \x7d d \"x;y\";".toList =
      ([("a".toList, "1".toList), ("b".toList, "\x7b c (1 2; 3); \x7d".toList),
        ("d".toList, "\"x;y\"".toList)], true) ∧
    (topLevelEntryPayloads "a 1; a 2;".toList).2 = false ∧
    literalEntryPayload "b \x7b c /* k */ 2 ; \x7d".toList "b.c".toList = some "2".toList ∧
    canonicalPayload (some " (1  2) \"a  b\" ".toList) =
      some ["(1".toList, "2)".toList, "\"a  b\"".toList] := by
  decide +kernel

end Contracts
end OpenFoamAgent
