/-
# Sections and named dictionaries

`parse_top_level_blocks`, `parse_declared_type` and `find_named_dictionary` of
`verification/foam_semantics/parser.py`: the entries of a section between two
delimiters, and the brace of a dictionary by its name.

Beside each entry stands the place it was read from. The loop over a section
ends by itself (`sectionFrom_isSome`), but a statement without a semicolon ends
on the closing delimiter of the section, and the loop goes on one character
behind the end of the statement. `foundEntries_enclosed` says when that shows.
-/
import OpenFoamAgent.Verification.FoamSemantics

namespace OpenFoamAgent
namespace Verification

open Python Contracts Engineering

/-! ### Declared types -/

section
-- the class `\w` of the `re` module, as in `findWord`
variable (isWord : Char → Bool)

/-- `_TYPE_RE.search`, behind a character: the group of the match. -/
def typeMatch : Option Char → Text → Option Text
  | behind, text =>
    let gap := (text.drop 4).takeWhile isSpace
    let value := (text.drop 4).dropWhile isSpace
    let group := value.takeWhile fun c => !([';', '{', '}'].contains c)
    -- where nothing stands between the spaces and the semicolon, `\s+` gives one space back
    if wordBoundary isWord behind text.head? ∧ "type".toList.isPrefixOf text ∧ gap ≠ [] ∧
        (value.drop group.length).head? = some ';' ∧ (group ≠ [] ∨ 2 ≤ gap.length) then
      some group
    else
      match text with
      | [] => none
      | c :: cs => typeMatch (some c) cs

/-- `parse_declared_type`: the first word of the group. -/
def parseDeclaredType (body : Text) : Text :=
  ((typeMatch isWord none body).getD []).takeWhile fun c => !isSpace c

/-! ### The turns over a section -/

/-- What one turn of the loop of `parse_top_level_blocks` finds. Places count from the character
at which the turn begins; `taken` is the number of characters up to the next turn. -/
inductive SectionStep where
  | finished
  /-- `complete = True`. -/
  | closed
  /-- No key stands here. -/
  | skipped (taken : ℕ)
  /-- A dictionary without its closing brace. -/
  | unfinished (key : FoamKey) (body : Text) (start : ℕ)
  | entry (key : FoamKey) (body declaredType : Text) (start stop taken : ℕ)
  /-- An ordinary statement. -/
  | statement (taken : ℕ)

/-- One turn of the loop of `parse_top_level_blocks`. -/
def sectionStep (closing : Char) (text : Text) : SectionStep :=
  match text.dropWhile isSpace with
  | [] => .finished
  | c :: cs =>
    if c = closing then .closed
    else
      let start := text.length - (c :: cs).length
      match parseKey (c :: cs) with
      | (none, rest) => .skipped (text.length - rest.length)
      | (some key, afterKey) =>
        let tail := afterKey.dropWhile isSpace
        let ahead := text.length - tail.length
        if tail.head? = some '{' then
          match matchingBrace tail with
          | none => .unfinished key (tail.drop 1) start
          | some brace =>
            let body := (tail.drop 1).take (brace - 1)
            .entry key body (parseDeclaredType isWord body) start (ahead + brace + 1)
              (ahead + brace + 1)
        else
          let semi := scanToStatementEnd closing tail
          if key.patternState = .indeterminate then
            .entry key (tail.take semi) [] start (ahead + semi) (ahead + semi + 1)
          else .statement (ahead + semi + 1)

/-- How far the loop goes on, if it goes on. -/
def SectionStep.taken : SectionStep → Option ℕ
  | .finished | .closed | .unfinished .. => none
  | .skipped taken | .entry _ _ _ _ _ taken | .statement taken => some taken

/-! ### The loop -/

/-- `FoamEntry`. -/
structure FoamEntry where
  key : FoamKey
  body : Text
  order : ℕ
  declaredType : Text
  deriving DecidableEq

/-- `FoamDictionary`. -/
structure FoamDictionary where
  entries : List FoamEntry
  complete : Bool
  deriving DecidableEq

/-- An entry, and the place it was read from: `clean[start:stop]`. -/
structure FoundEntry extends FoamEntry where
  start : ℕ
  stop : ℕ
  deriving DecidableEq

/-- The loop of `parse_top_level_blocks`: the entries from `cursor` on, and `complete`. -/
def sectionFrom (closing : Char) : ℕ → ℕ → ℕ → Text → Option (List FoundEntry × Bool)
  | 0, _, _, _ => none
  | fuel + 1, cursor, order, text =>
    match sectionStep isWord closing text with
    | .finished => some ([], false)
    | .closed => some ([], true)
    | .skipped taken | .statement taken =>
      sectionFrom closing fuel (cursor + taken) order (text.drop taken)
    | .unfinished key body start =>
      some ([⟨⟨key, body, order, []⟩, cursor + start, cursor + text.length⟩], false)
    | .entry key body declaredType start stop taken =>
      (sectionFrom closing fuel (cursor + taken) (order + 1) (text.drop taken)).map fun r =>
        (⟨⟨key, body, order, declaredType⟩, cursor + start, cursor + stop⟩ :: r.1, r.2)

/-- `expected_open`. -/
def expectedOpen (closing : Char) : Char := if closing = ')' then '(' else '{'

/-- Where the section opens: at the index, or at the first opening delimiter from 64 characters
in front of it on. -/
def sectionOpening (clean : Text) (openIndex : ℕ) (closing : Char) : Option ℕ :=
  if clean[openIndex]? = some (expectedOpen closing) then some openIndex
  else
    ((clean.drop (openIndex - 64)).idxOf? (expectedOpen closing)).map (openIndex - 64 + ·)

/-- The entries of `parse_top_level_blocks` with their places. -/
def foundEntries (text : Text) (openIndex : ℕ) (closing : Char) :
    Option (List FoundEntry × Bool) :=
  let clean := stripComments text
  match sectionOpening clean openIndex closing with
  | none => some ([], false)
  | some opening =>
    sectionFrom isWord closing (clean.length + 1) (opening + 1) 0 (clean.drop (opening + 1))

/-- `parse_top_level_blocks`. -/
def parseTopLevelBlocks (text : Text) (openIndex : ℕ) (closing : Char) : Option FoamDictionary :=
  (foundEntries isWord text openIndex closing).map fun found =>
    ⟨found.1.map FoundEntry.toFoamEntry, found.2⟩

/-! ### Each turn goes on -/

variable {isWord} {closing : Char}

/-- What holds of the places of one turn over a text. -/
structure Placed (text : Text) (step : SectionStep) : Prop where
  advances : ∀ taken, step.taken = some taken → 0 < taken
  ordered : ∀ key body declaredType start stop taken,
    step = .entry key body declaredType start stop taken → start < stop ∧ stop ≤ taken
  inside : ∀ key body start, step = .unfinished key body start → start < text.length

theorem sectionStep_placed (isWord : Char → Bool) (closing : Char) (text : Text) :
    Placed text (sectionStep isWord closing text) := by
  unfold sectionStep
  split
  · exact ⟨nofun, nofun, nofun⟩
  rename_i c cs htext
  have hlength : (c :: cs).length ≤ text.length := by
    rw [← htext]
    exact List.length_dropWhile_le _ _
  split
  · exact ⟨nofun, nofun, nofun⟩
  have hkey : (parseKey (c :: cs)).2.length < (c :: cs).length := by
    refine parseKey_length ?_
    rw [← htext, List.dropWhile_idempotent]
    rw [htext]
    exact List.cons_ne_nil _ _
  dsimp only
  split
  · rename_i rest hparse
    rw [hparse] at hkey
    refine ⟨?_, nofun, nofun⟩
    rintro taken ⟨⟩
    dsimp only at hkey
    omega
  rename_i key afterKey hparse
  rw [hparse] at hkey
  have htail : (afterKey.dropWhile isSpace).length < (c :: cs).length :=
    (List.length_dropWhile_le _ _).trans_lt hkey
  split
  · split
    · refine ⟨nofun, nofun, ?_⟩
      rintro key' body start ⟨⟩
      simp only [List.length_cons] at hlength ⊢
      omega
    · refine ⟨?_, ?_, nofun⟩
      · rintro taken ⟨⟩
        omega
      · rintro key' body declaredType start stop taken ⟨⟩
        exact ⟨by omega, le_rfl⟩
  · split
    · refine ⟨?_, ?_, nofun⟩
      · rintro taken ⟨⟩
        omega
      · rintro key' body declaredType start stop taken ⟨⟩
        exact ⟨by omega, by omega⟩
    · refine ⟨?_, nofun, nofun⟩
      rintro taken ⟨⟩
      omega

/-! ### The loop ends -/

/-- With more turns than characters the loop comes to its end. -/
theorem sectionFrom_isSome (isWord : Char → Bool) (closing : Char) {fuel : ℕ} (cursor order : ℕ)
    {text : Text} (h : text.length < fuel) :
    (sectionFrom isWord closing fuel cursor order text).isSome := by
  induction fuel generalizing cursor order text with
  | zero => omega
  | succ n ih =>
    have hplaced := sectionStep_placed isWord closing text
    have hrest : ∀ taken, (sectionStep isWord closing text).taken = some taken →
        0 < text.length → (text.drop taken).length < n := by
      intro taken htaken htext
      have := hplaced.advances taken htaken
      rw [List.length_drop]
      omega
    rw [sectionFrom]
    cases text with
    | nil => rfl
    | cons c cs =>
      cases hstep : sectionStep isWord closing (c :: cs) with
      | finished | closed | unfinished => rfl
      | skipped taken | statement taken =>
        exact ih _ _ (hrest taken (by rw [hstep, SectionStep.taken]) (Nat.succ_pos _))
      | entry key body declaredType start stop taken =>
        rw [Option.isSome_map]
        exact ih _ _ (hrest taken (by rw [hstep, SectionStep.taken]) (Nat.succ_pos _))

/-- A loop that has come to its end does not depend on the number of turns it was given. -/
theorem sectionFrom_fuel {fuel fuel' cursor order : ℕ} {text : Text}
    {found : List FoundEntry × Bool}
    (h : sectionFrom isWord closing fuel cursor order text = some found) (hle : fuel ≤ fuel') :
    sectionFrom isWord closing fuel' cursor order text = some found := by
  induction fuel generalizing fuel' cursor order text found with
  | zero => cases h
  | succ n ih =>
    obtain ⟨m, rfl⟩ : ∃ m, fuel' = m + 1 := ⟨fuel' - 1, by omega⟩
    rw [sectionFrom] at h ⊢
    cases hstep : sectionStep isWord closing text with
    | finished | closed | unfinished => rwa [hstep] at h
    | skipped taken | statement taken =>
      rw [hstep] at h
      exact ih h (by omega)
    | entry key body declaredType start stop taken =>
      rw [hstep] at h
      obtain ⟨r, hr, rfl⟩ := Option.map_eq_some_iff.1 h
      exact Option.map_eq_some_iff.2 ⟨r, ih hr (by omega), rfl⟩

/-- The entries lie behind the place at which the loop began. -/
theorem sectionFrom_ahead {fuel cursor order : ℕ} {text : Text} {found : List FoundEntry × Bool}
    (h : sectionFrom isWord closing fuel cursor order text = some found) :
    ∀ e ∈ found.1, cursor ≤ e.start ∧ e.start < e.stop := by
  induction fuel generalizing cursor order text found with
  | zero => cases h
  | succ n ih =>
    have hplaced := sectionStep_placed isWord closing text
    rw [sectionFrom] at h
    cases hstep : sectionStep isWord closing text with
    | finished | closed =>
      rw [hstep] at h
      obtain rfl := Option.some.inj h
      exact fun e he => nomatch he
    | unfinished key body start =>
      rw [hstep] at h hplaced
      obtain rfl := Option.some.inj h
      have hstart := hplaced.inside _ _ _ rfl
      intro e he
      obtain rfl := List.mem_singleton.1 he
      exact ⟨Nat.le_add_right _ _, Nat.add_lt_add_left hstart _⟩
    | skipped taken | statement taken =>
      rw [hstep] at h
      intro e he
      have := ih h e he
      omega
    | entry key body declaredType start stop taken =>
      rw [hstep] at h hplaced
      obtain ⟨r, hr, rfl⟩ := Option.map_eq_some_iff.1 h
      have hstart := (hplaced.ordered _ _ _ _ _ _ rfl).1
      intro e he
      rcases List.mem_cons.1 he with rfl | he
      · exact ⟨Nat.le_add_right _ _, Nat.add_lt_add_left hstart _⟩
      · have := ih hr e he
        omega

/-! ### Entries are read from their places -/

theorem quotedKey_split {quote : Char} {text value rest : Text}
    (h : quotedKey quote text = some (value, rest)) : text = value ++ quote :: rest := by
  fun_induction quotedKey quote text generalizing value rest with
  | case1 => cases h
  | case2 c cs ih =>
    obtain ⟨⟨value', rest'⟩, hr, heq⟩ := Option.map_eq_some_iff.1 h
    cases heq
    rw [List.cons_append, List.cons_append, ← ih hr]
  | case3 cs =>
    cases h
    rfl
  | case4 c cs _ _ ih =>
    obtain ⟨⟨value', rest'⟩, hr, heq⟩ := Option.map_eq_some_iff.1 h
    cases heq
    rw [List.cons_append, ← ih hr]

/-- The key stands in front of the text behind it. -/
theorem parseKey_split {text rest : Text} {key : FoamKey} (h : parseKey text = (some key, rest)) :
    text.dropWhile isSpace = key.raw ++ rest := by
  unfold parseKey at h
  split at h
  · cases h
  rename_i c cs htext
  split at h
  · split at h
    · rename_i value rest' hkey
      cases h
      rw [htext, quotedKey_split hkey]
      simp
    · cases h
      rw [htext, List.append_nil]
  · dsimp only at h
    split at h
    · cases h
    · split_ifs at h
      all_goals
        cases h
        rw [htext, List.takeWhile_append_dropWhile]

/-- The key stands at the beginning of `text[start:stop]`, and the body in it. -/
structure ReadAt (text : Text) (key : FoamKey) (body : Text) (start stop : ℕ) : Prop where
  key : key.raw <+: text.drop start
  body : body <:+: (text.drop start).take (stop - start)

theorem ReadAt.shift {clean : Text} {key : FoamKey} {body : Text} {cursor start stop : ℕ}
    (h : ReadAt (clean.drop cursor) key body start stop) :
    ReadAt clean key body (cursor + start) (cursor + stop) := by
  obtain ⟨hkey, hbody⟩ := h
  rw [List.drop_drop] at hkey hbody
  exact ⟨hkey, by rwa [Nat.add_sub_add_left]⟩

/-- A piece of the text from one place on, inside the piece from an earlier place on. -/
theorem slice_infix {text body : Text} {start length : ℕ} (ahead size : ℕ) (h : start ≤ ahead)
    (hbody : body <:+: (text.drop ahead).take size) (hlength : ahead + size ≤ start + length) :
    body <:+: (text.drop start).take length := by
  refine hbody.trans ?_
  have hdrop : (text.drop ahead).take size = ((text.drop start).drop (ahead - start)).take size := by
    rw [List.drop_drop, Nat.add_sub_cancel' h]
  rw [hdrop, List.take_drop]
  refine (List.drop_suffix _ _).isInfix.trans (List.IsPrefix.isInfix ?_)
  exact List.take_prefix_take_left (by omega)

/-- Each entry is read from its place. -/
theorem sectionStep_reads (isWord : Char → Bool) (closing : Char) (text : Text) :
    (∀ key body declaredType start stop taken, sectionStep isWord closing text =
      .entry key body declaredType start stop taken → ReadAt text key body start stop) ∧
    ∀ key body start, sectionStep isWord closing text = .unfinished key body start →
      ReadAt text key body start text.length := by
  unfold sectionStep
  split
  · exact ⟨nofun, nofun⟩
  rename_i c cs htext
  have hsuffix : text.drop (text.length - (c :: cs).length) = c :: cs := by
    rw [← htext]
    exact (List.suffix_iff_eq_drop.1 (List.dropWhile_suffix _)).symm
  split
  · exact ⟨nofun, nofun⟩
  dsimp only
  split
  · exact ⟨nofun, nofun⟩
  rename_i key afterKey hparse
  have hkey : key.raw ++ afterKey = c :: cs := by
    have hsplit := parseKey_split hparse
    rwa [← htext, List.dropWhile_idempotent, htext, eq_comm] at hsplit
  have hprecedes : key.raw <+: text.drop (text.length - (c :: cs).length) := by
    rw [hsuffix, ← hkey]
    exact List.prefix_append _ _
  have htail : afterKey.dropWhile isSpace <:+ c :: cs :=
    (List.dropWhile_suffix _).trans (hkey ▸ List.suffix_append _ _)
  have hlength := htail.length_le
  have hwhole : afterKey.dropWhile isSpace <:+ text :=
    htail.trans (hsuffix ▸ List.drop_suffix _ _)
  have hdrop := (List.suffix_iff_eq_drop.1 hwhole).symm
  have hwhole' := hwhole.length_le
  generalize afterKey.dropWhile isSpace = tail at hlength hdrop hwhole'
  split
  · split
    · refine ⟨nofun, ?_⟩
      rintro key' body start ⟨⟩
      refine ⟨hprecedes, ?_⟩
      refine slice_infix (text.length - tail.length) tail.length (by omega) ?_ (by omega)
      rw [hdrop, List.take_length]
      exact (List.drop_suffix _ _).isInfix
    · rename_i brace _
      refine ⟨?_, nofun⟩
      rintro key' body declaredType start stop taken ⟨⟩
      refine ⟨hprecedes, ?_⟩
      refine slice_infix (text.length - tail.length) (brace + 1) (by omega) ?_ (by omega)
      rw [hdrop]
      cases tail with
      | nil => simp
      | cons d ds =>
        rw [List.drop_one, List.tail_cons, List.take_succ_cons]
        exact (List.take_prefix_take_left (Nat.sub_le _ _)).isInfix.trans
          (List.suffix_cons _ _).isInfix
  · split
    · refine ⟨?_, nofun⟩
      rintro key' body declaredType start stop taken ⟨⟩
      refine ⟨hprecedes, ?_⟩
      refine slice_infix (text.length - tail.length) (scanToStatementEnd closing tail)
        (by omega) ?_ (by omega)
      rw [hdrop]
    · exact ⟨nofun, nofun⟩

theorem sectionFrom_reads {clean : Text} {fuel cursor order : ℕ} {found : List FoundEntry × Bool}
    (h : sectionFrom isWord closing fuel cursor order (clean.drop cursor) = some found) :
    ∀ e ∈ found.1, ReadAt clean e.key e.body e.start e.stop := by
  induction fuel generalizing cursor order found with
  | zero => cases h
  | succ n ih =>
    obtain ⟨hentry, hunfinished⟩ := sectionStep_reads isWord closing (clean.drop cursor)
    rw [sectionFrom] at h
    cases hstep : sectionStep isWord closing (clean.drop cursor) with
    | finished | closed =>
      rw [hstep] at h
      obtain rfl := Option.some.inj h
      exact fun e he => nomatch he
    | unfinished key body start =>
      rw [hstep] at h
      obtain rfl := Option.some.inj h
      intro e he
      obtain rfl := List.mem_singleton.1 he
      exact (hunfinished _ _ _ hstep).shift
    | skipped taken | statement taken =>
      rw [hstep] at h
      dsimp only at h
      rw [List.drop_drop] at h
      exact ih h
    | entry key body declaredType start stop taken =>
      rw [hstep] at h
      dsimp only at h
      obtain ⟨r, hr, rfl⟩ := Option.map_eq_some_iff.1 h
      rw [List.drop_drop] at hr
      intro e he
      rcases List.mem_cons.1 he with rfl | he
      · exact (hentry _ _ _ _ _ _ hstep).shift
      · exact ih hr e he

/-! ### Turns that go past the section -/

/-- A turn that goes on behind a place, and what it leaves: the text behind it, and where that
begins. -/
structure Overrun where
  /-- The turn returns an entry that reaches over the place. -/
  reaches : Bool
  cursor : ℕ
  rest : Text

/-- The first turn that goes on behind the place `limit`. -/
def overrun (isWord : Char → Bool) (closing : Char) (limit : ℕ) : ℕ → ℕ → Text → Option Overrun
  | 0, _, _ => none
  | fuel + 1, cursor, text =>
    let step := sectionStep isWord closing text
    step.taken.bind fun taken =>
      if cursor + taken ≤ limit then
        overrun isWord closing limit fuel (cursor + taken) (text.drop taken)
      else
        let reaches := match step with
          | .entry _ _ _ _ stop _ => decide (limit < cursor + stop)
          | _ => false
        some ⟨reaches, cursor + taken, text.drop taken⟩

/-- Behind the turn the loop comes to a closing delimiter, and either to an entry on its way or
the turn was one. -/
def Overrun.Shows (isWord : Char → Bool) (closing : Char) (o : Overrun) : Prop :=
  ∃ found, sectionFrom isWord closing (o.rest.length + 1) o.cursor 0 o.rest = some found ∧
    found.2 = true ∧ (o.reaches = true ∨ found.1 ≠ [])

/-- The number of the first entry is only a number. -/
theorem sectionFrom_order {fuel cursor order : ℕ} (order' : ℕ) {text : Text}
    {found : List FoundEntry × Bool}
    (h : sectionFrom isWord closing fuel cursor order text = some found) :
    ∃ found', sectionFrom isWord closing fuel cursor order' text = some found' ∧
      found'.2 = found.2 ∧ found'.1.length = found.1.length := by
  induction fuel generalizing cursor order order' text found with
  | zero => cases h
  | succ n ih =>
    rw [sectionFrom] at h ⊢
    cases hstep : sectionStep isWord closing text with
    | finished | closed | unfinished =>
      rw [hstep] at h
      obtain rfl := Option.some.inj h
      exact ⟨_, rfl, rfl, rfl⟩
    | skipped taken | statement taken =>
      rw [hstep] at h
      exact ih order' h
    | entry key body declaredType start stop taken =>
      rw [hstep] at h
      obtain ⟨r, hr, rfl⟩ := Option.map_eq_some_iff.1 h
      obtain ⟨r', hr', hcomplete, hlength⟩ := ih (order' + 1) hr
      exact ⟨_, Option.map_eq_some_iff.2 ⟨r', hr', rfl⟩, hcomplete, by simp [hlength]⟩

/-- What the loop finds behind the turn decides. -/
theorem Overrun.shows_iff {o : Overrun} {fuel order : ℕ} {found : List FoundEntry × Bool}
    (h : sectionFrom isWord closing fuel o.cursor order o.rest = some found) :
    o.Shows isWord closing ↔ found.2 = true ∧ (o.reaches = true ∨ found.1 ≠ []) := by
  obtain ⟨found', hfound', hcomplete, hlength⟩ := sectionFrom_order 0 h
  obtain ⟨short, hshort⟩ := Option.isSome_iff_exists.1
    (sectionFrom_isSome isWord closing o.cursor 0 (Nat.lt_succ_self o.rest.length))
  have heq : short = found' := by
    have hleft := sectionFrom_fuel hshort (Nat.le_add_right _ fuel)
    have hright := sectionFrom_fuel hfound' (Nat.le_add_left fuel (o.rest.length + 1))
    exact Option.some.inj (hleft.symm.trans hright)
  have hnil : found'.1 ≠ [] ↔ found.1 ≠ [] := by
    rw [← List.length_pos_iff, ← List.length_pos_iff, hlength]
  unfold Overrun.Shows
  rw [← hcomplete, ← hnil, ← heq]
  constructor
  · rintro ⟨r, hr, hshows⟩
    obtain rfl := Option.some.inj (hr.symm.trans hshort)
    exact hshows
  · exact fun hshows => ⟨short, hshort, hshows⟩

/-- The entries of a complete section end in front of a place, if and only if no turn that goes
past the place shows. -/
theorem sectionFrom_below (limit : ℕ) {fuel cursor order : ℕ} {text : Text}
    {found : List FoundEntry × Bool}
    (h : sectionFrom isWord closing fuel cursor order text = some found) :
    (found.2 = true → ∀ e ∈ found.1, e.stop ≤ limit) ↔
      ∀ o, overrun isWord closing limit fuel cursor text = some o → ¬ o.Shows isWord closing := by
  induction fuel generalizing cursor order text found with
  | zero => cases h
  | succ n ih =>
    have hplaced := sectionStep_placed isWord closing text
    rw [sectionFrom] at h
    rw [overrun]
    cases hstep : sectionStep isWord closing text with
    | finished | closed =>
      rw [hstep] at h
      obtain rfl := Option.some.inj h
      exact ⟨fun _ _ ho => (nomatch ho), fun _ _ _ he => (nomatch he)⟩
    | unfinished key body start =>
      rw [hstep] at h
      obtain rfl := Option.some.inj h
      exact ⟨fun _ _ ho => (nomatch ho), fun _ hcomplete => (nomatch hcomplete)⟩
    | skipped taken | statement taken =>
      rw [hstep] at h
      by_cases hlimit : cursor + taken ≤ limit
      · simpa only [SectionStep.taken, Option.bind_some, if_pos hlimit] using ih h
      · -- every entry behind the turn lies behind the place
        simp only [SectionStep.taken, Option.bind_some, if_neg hlimit, Option.some.injEq,
          forall_eq']
        rw [Overrun.shows_iff h]
        constructor
        · rintro hbelow ⟨hcomplete, hreaches | hne⟩
          · cases hreaches
          · obtain ⟨e, he⟩ := List.exists_mem_of_ne_nil _ hne
            have hahead := sectionFrom_ahead h e he
            have := hbelow hcomplete e he
            omega
        · intro hquiet hcomplete e he
          exact absurd ⟨hcomplete, .inr (List.ne_nil_of_mem he)⟩ hquiet
    | entry key body declaredType start stop taken =>
      rw [hstep] at h hplaced
      obtain ⟨r, hr, rfl⟩ := Option.map_eq_some_iff.1 h
      have hstop := (hplaced.ordered _ _ _ _ _ _ rfl).2
      by_cases hlimit : cursor + taken ≤ limit
      · simp only [SectionStep.taken, Option.bind_some, if_pos hlimit, List.forall_mem_cons]
        rw [← ih hr]
        exact ⟨fun hbelow hcomplete => (hbelow hcomplete).2,
          fun hbelow hcomplete => ⟨by omega, hbelow hcomplete⟩⟩
      · simp only [SectionStep.taken, Option.bind_some, if_neg hlimit, Option.some.injEq,
          forall_eq']
        rw [Overrun.shows_iff hr]
        constructor
        · rintro hbelow ⟨hcomplete, hreaches | hne⟩
          · have := (List.forall_mem_cons.1 (hbelow hcomplete)).1
            exact absurd (of_decide_eq_true hreaches) (not_lt.2 this)
          · obtain ⟨e, he⟩ := List.exists_mem_of_ne_nil _ hne
            have hahead := sectionFrom_ahead hr e he
            have := (List.forall_mem_cons.1 (hbelow hcomplete)).2 e he
            omega
        · intro hquiet hcomplete
          have hnot := not_and.1 hquiet hcomplete
          rw [not_or, not_ne_iff] at hnot
          refine List.forall_mem_cons.2 ⟨?_, fun e he => ?_⟩
          · exact not_lt.1 fun hreaches => hnot.1 (decide_eq_true hreaches)
          · rw [hnot.2] at he
            exact nomatch he

/-! ### Enclosed entries -/

/-- The delimiter that closes the section. -/
def sectionClosing (clean : Text) (openIndex : ℕ) (closing : Char) : Option ℕ :=
  (sectionOpening clean openIndex closing).bind fun opening =>
    (matchingDelimiter (expectedOpen closing) closing 0 .plain (clean.drop opening)).map
      (opening + ·)

/-- In a complete section every entry lies strictly between the opening delimiter and the one that
closes it. -/
def Enclosed (clean : Text) (openIndex : ℕ) (closing : Char) (found : List FoundEntry × Bool) :
    Prop :=
  found.2 = true → ∀ e ∈ found.1, ∃ opening stop, sectionOpening clean openIndex closing =
    some opening ∧ sectionClosing clean openIndex closing = some stop ∧ opening < e.start ∧
      e.stop ≤ stop

/-- The first turn that goes on behind the closing delimiter of the section; where nothing closes
the section, the first turn that goes on at all. -/
def firstOverrun (isWord : Char → Bool) (text : Text) (openIndex : ℕ) (closing : Char) :
    Option Overrun :=
  let clean := stripComments text
  (sectionOpening clean openIndex closing).bind fun opening =>
    overrun isWord closing ((sectionClosing clean openIndex closing).getD opening)
      (clean.length + 1) (opening + 1) (clean.drop (opening + 1))

end

/-! ### Named dictionaries -/

/-- The keyword and the opening brace of the dictionary entry that stands next in a text, counted
from its front, as `parse_top_level_assignments` reads it. -/
def entryBrace (text : Text) : Option (Text × ℕ) :=
  match parseKey text with
  | (none, _) => none
  | (some key, afterKey) =>
    let tail := afterKey.dropWhile isSpace
    if key.patternState ≠ .indeterminate ∧ tail.head? = some '{' then
      some (key.value, text.length - tail.length)
    else none

/-- The dictionary entries of the turns over a text that begins at `cursor`. -/
def dictionariesFrom : ℕ → ℕ → Text → List (Text × ℕ)
  | 0, _, _ => []
  | fuel + 1, cursor, text =>
    (entryBrace text).toList.map (fun entry => (entry.1, cursor + entry.2)) ++
      (topLevelEntry text).rest.elim [] fun rest =>
        dictionariesFrom fuel (cursor + (text.length - rest.length)) rest

/-- The keywords and opening braces of the dictionary entries at the top level of a text. -/
def topLevelDictionaries (clean : Text) : List (Text × ℕ) :=
  dictionariesFrom (clean.length + 1) 0 clean

theorem entryBrace_getElem {text key : Text} {brace : ℕ} (h : entryBrace text = some (key, brace)) :
    text[brace]? = some '{' := by
  unfold entryBrace at h
  split at h
  · cases h
  rename_i key' afterKey hparse
  dsimp only at h
  split at h
  · rename_i hbrace
    cases h
    have hsuffix : afterKey.dropWhile isSpace <:+ text := by
      refine (List.dropWhile_suffix _).trans ?_
      refine List.IsSuffix.trans ?_ (List.dropWhile_suffix isSpace)
      rw [parseKey_split hparse]
      exact List.suffix_append _ _
    rw [List.suffix_iff_eq_drop] at hsuffix
    rw [← List.head?_drop, ← hsuffix]
    exact hbrace.2
  · cases h

theorem parseKey_suffix (text : Text) : (parseKey text).2 <:+ text := by
  unfold parseKey
  split
  · exact List.nil_suffix
  rename_i c cs htext
  have hsuffix : c :: cs <:+ text := htext ▸ List.dropWhile_suffix _
  refine List.IsSuffix.trans ?_ hsuffix
  split
  · split
    · rename_i value rest hkey
      rw [quotedKey_split hkey]
      exact ⟨c :: (value ++ [c]), by simp⟩
    · exact List.nil_suffix
  · dsimp only
    split
    · exact List.suffix_cons _ _
    · split_ifs <;> exact List.dropWhile_suffix _

theorem topLevelEntry_suffix {text rest : Text} (h : (topLevelEntry text).rest = some rest) :
    rest <:+ text := by
  have hkey := parseKey_suffix text
  unfold topLevelEntry at h
  split at h
  · cases h
  split at h
  · rename_i rest' hparse
    obtain rfl := Option.some.inj h
    rwa [hparse] at hkey
  rename_i key afterKey hparse
  rw [hparse] at hkey
  have htail : ∀ n, (afterKey.dropWhile isSpace).drop n <:+ text := fun n =>
    ((List.drop_suffix n _).trans (List.dropWhile_suffix _)).trans hkey
  dsimp only at h
  split_ifs at h
  · obtain rfl := Option.some.inj h
    exact ((List.drop_suffix 1 _).trans (List.dropWhile_suffix _)).trans (htail 0)
  · obtain rfl := Option.some.inj h
    exact htail _
  · split at h
    · cases h
    · obtain rfl := Option.some.inj h
      exact htail _
  · obtain rfl := Option.some.inj h
    exact htail _

/-- At the place of an entry stands its opening brace. -/
theorem dictionariesFrom_getElem {clean key : Text} {fuel brace : ℕ} (cursor : ℕ)
    (h : (key, brace) ∈ dictionariesFrom fuel cursor (clean.drop cursor)) :
    clean[brace]? = some '{' := by
  induction fuel generalizing cursor with
  | zero => cases h
  | succ n ih =>
    rw [dictionariesFrom, List.mem_append] at h
    rcases h with hentry | hrest
    · obtain ⟨⟨key', brace'⟩, hentry', heq⟩ := List.mem_map.1 hentry
      cases heq
      have hget := entryBrace_getElem (Option.mem_toList.1 hentry')
      rwa [List.getElem?_drop] at hget
    · cases hrest' : (topLevelEntry (clean.drop cursor)).rest with
      | none =>
        rw [hrest'] at hrest
        cases hrest
      | some rest =>
        rw [hrest', Option.elim_some] at hrest
        have hsuffix := topLevelEntry_suffix hrest'
        have heq : rest = clean.drop (cursor + ((clean.drop cursor).length - rest.length)) := by
          rw [← List.drop_drop]
          exact List.suffix_iff_eq_drop.1 hsuffix
        generalize (clean.drop cursor).length - rest.length = taken at heq hrest
        subst heq
        exact ih _ hrest

/-- The first brace that opens stands behind the characters that are not one. -/
theorem length_takeWhile_brace {text : Text} {k : ℕ} (hget : text[k]? = some '{')
    (hnot : '{' ∉ text.take k) : (text.takeWhile (· ≠ '{')).length = k := by
  obtain ⟨hlt, hk⟩ := List.getElem?_eq_some_iff.1 hget
  have hsplit : text = text.take k ++ '{' :: text.drop (k + 1) := by
    conv_lhs => rw [← List.take_append_drop k text, List.drop_eq_getElem_cons hlt, hk]
  have htake : (text.takeWhile (· ≠ '{')) = text.take k := by
    conv_lhs => rw [hsplit]
    rw [List.takeWhile_append_of_pos, List.takeWhile_cons_of_neg (by simp), List.append_nil]
    intro c hc
    exact decide_eq_true fun heq => hnot (heq ▸ hc)
  rw [htake, List.length_take]
  omega

/-- What a lookup is to return: the brace of a dictionary entry at the top level with this keyword,
and nothing only where there is none. -/
structure Selects (clean name : Text) (found : Option ℕ) : Prop where
  entry : ∀ brace, found = some brace → (name, brace) ∈ topLevelDictionaries clean
  absent : found = none → ∀ brace, (name, brace) ∉ topLevelDictionaries clean

/-- **Where the lookup selects the entry.** Either an entry with the keyword is there, and no other
brace opens between the first occurrence of the name as a word and the brace of the entry; or there
is none, and behind the first occurrence of the name as a word no brace opens. -/
theorem findNamedDictionary_selects (isWord : Char → Bool) (text name : Text) :
    Selects (stripComments text) name (findNamedDictionary isWord text name) ↔
      (∃ stop brace, findWord isWord name none (stripComments text) = some stop ∧
        (name, brace) ∈ topLevelDictionaries (stripComments text) ∧ stop ≤ brace ∧
          '{' ∉ ((stripComments text).take brace).drop stop) ∨
      (∀ brace, (name, brace) ∉ topLevelDictionaries (stripComments text)) ∧
        ∀ stop, findWord isWord name none (stripComments text) = some stop →
          '{' ∉ (stripComments text).drop stop := by
  have hbrace : ∀ brace, (name, brace) ∈ topLevelDictionaries (stripComments text) →
      (stripComments text)[brace]? = some '{' := fun brace h =>
    dictionariesFrom_getElem 0 h
  unfold findNamedDictionary
  generalize stripComments text = clean at hbrace ⊢
  dsimp only
  cases findWord isWord name none clean with
  | none =>
    rw [Option.bind_none]
    constructor
    · exact fun h => .inr ⟨h.absent rfl, nofun⟩
    · rintro (⟨_, _, hword, -⟩ | h)
      · cases hword
      · exact ⟨nofun, fun _ => h.1⟩
  | some stop =>
    rw [Option.bind_some]
    by_cases hopen : '{' ∈ clean.drop stop
    · rw [if_pos hopen]
      have hgap : '{' ∉ (clean.drop stop).takeWhile (· ≠ '{') := fun h => by
        simpa using List.mem_takeWhile_imp h
      constructor
      · refine fun h => .inl ⟨stop, _, rfl, h.entry _ rfl, Nat.le_add_right _ _, ?_⟩
        rw [List.drop_take, Nat.add_sub_cancel_left,
          ← List.prefix_iff_eq_take.1 (List.takeWhile_prefix _)]
        exact hgap
      · rintro (⟨_, brace, hword, hentry, hle, hnot⟩ | h)
        · cases hword
          have hget := hbrace brace hentry
          rw [← Nat.add_sub_cancel' hle, ← List.getElem?_drop] at hget
          rw [List.drop_take] at hnot
          rw [length_takeWhile_brace hget hnot, Nat.add_sub_cancel' hle]
          exact ⟨fun _ heq => Option.some.inj heq ▸ hentry, nofun⟩
        · exact absurd hopen (h.2 stop rfl)
    · rw [if_neg hopen]
      constructor
      · exact fun h => .inr ⟨h.absent rfl, fun _ heq => Option.some.inj heq ▸ hopen⟩
      · rintro (⟨_, brace, hword, hentry, hle, -⟩ | h)
        · cases hword
          refine absurd ?_ hopen
          have hget := hbrace brace hentry
          refine List.mem_of_getElem? (i := brace - stop) ?_
          rwa [List.getElem?_drop, Nat.add_sub_cancel' hle]
        · exact ⟨nofun, fun _ => h.1⟩

/-- The name of a dictionary stands in front of it as a quoted value. -/
def quotedName : Text :=
  "note \"solvers\"; relaxation \x7b p 1; \x7d solvers \x7b U 2; \x7d".toList

/-- A name that stands as a quoted value selects the dictionary behind the value. -/
theorem quoted_name_selects :
    ¬ ∀ isWord text name, Selects (stripComments text) name (findNamedDictionary isWord text name) := by
  intro h
  have hfound : findNamedDictionary isAsciiWord quotedName "solvers".toList = some 27 := by
    decide +kernel
  have hentries : topLevelDictionaries (stripComments quotedName) =
      [("relaxation".toList, 27), ("solvers".toList, 44)] := by
    decide +kernel
  have hmem := (h isAsciiWord quotedName "solvers".toList).entry 27 hfound
  rw [hentries] at hmem
  revert hmem
  decide +kernel

end Verification
end OpenFoamAgent
