/-
# The two readers of a dictionary

`_top_level_entry_payloads` of `contracts/execution.py` authorizes repairs;
`parse_top_level_assignments` of `verification/foam_semantics/parser.py` drives
completion and restart. They take comments out, delimit keywords and end values
each in its own way, so one text can have different entries for the two
(`readers_differ`): the first cuts a keyword where `[A-Za-z_][A-Za-z0-9_.-]*` ends
and the second at white space or a bracket; a `}` outside quotes ends a value for
the second only; and the second keeps the line breaks of a block comment, where the
first drops them.

Both comment removals are readings of one list of characters with marks
(`commentMarks`), one mark for each line break in a block comment. The first reader
divides this list into entries (`entryLayouts`). Where every keyword is a whole bare
word, and no value holds a `}` outside quotes or a mark, the two readers see the
same entries (`readers_agree`): one turn of the first is one turn of the second
(`Delimits`), and a complete run is a run of such turns.
-/
import OpenFoamAgent.Library.Marks
import OpenFoamAgent.Verification.FoamSemantics
import OpenFoamAgent.Verification.LineLayout

namespace OpenFoamAgent
namespace Verification

open Python Contracts Engineering Marks

/-! ### Comments -/

/-- The loop of `strip_comments`, with a mark for each line break in a block comment. -/
def marksFrom : CommentMode → Text → Marked Char
  | _, [] => []
  | .quoted q, '\\' :: c :: cs => some '\\' :: some c :: marksFrom (.quoted q) cs
  | .quoted q, c :: cs => some c :: marksFrom (if c = q then .code else .quoted q) cs
  | .line, c :: cs => if c = '\n' then some '\n' :: marksFrom .code cs else marksFrom .line cs
  | .block, '*' :: '/' :: cs => marksFrom .code cs
  | .block, [_] => []
  | .block, c :: cs => if c = '\n' then none :: marksFrom .block cs else marksFrom .block cs
  | .code, '/' :: '/' :: cs => marksFrom .line cs
  | .code, '/' :: '*' :: cs => marksFrom .block cs
  | .code, c :: cs => some c :: marksFrom (if c = '"' ∨ c = '\'' then .quoted c else .code) cs

/-- A text without its comments, with a mark for each line break in a block comment. -/
def commentMarks (text : Text) : Marked Char := marksFrom .code text

/-- `strip_comments` puts a line break in the place of each mark. -/
theorem filled_marksFrom (mode : CommentMode) (t : Text) :
    filled '\n' (marksFrom mode t) = Engineering.stripFrom mode t := by
  fun_induction marksFrom mode t <;> simp_all [Engineering.stripFrom]

/-- The quotes that the loop of `strip_comments` is in. -/
def modeQuotes : CommentMode → QuoteScan
  | .quoted q => .quoted q
  | _ => .plain

/-- Where the loop of `_strip_foam_comments` stands when that of `strip_comments` does. -/
def commentScan : CommentMode → CommentScan
  | .line => .line
  | .block => .block
  | mode => .code (modeQuotes mode)

theorem modeQuotes_quoted {q c : Char} (hc : c ≠ '\\') :
    modeQuotes (if c = q then .code else .quoted q) = (QuoteScan.quoted q).next c := by
  rw [QuoteScan.next, if_neg hc]
  split_ifs <;> rfl

theorem modeQuotes_code (c : Char) :
    modeQuotes (if c = '"' ∨ c = '\'' then .quoted c else .code) = QuoteScan.plain.next c := by
  rw [QuoteScan.next]
  split_ifs <;> rfl

/-- `_strip_foam_comments` drops the marks. -/
theorem reduceOption_marksFrom (mode : CommentMode) (t : Text) :
    (marksFrom mode t).reduceOption = Contracts.stripFrom (commentScan mode) t := by
  fun_induction marksFrom mode t with
  | case1 => rfl
  | case2 q c cs ih =>
    rw [List.reduceOption_cons_of_some, List.reduceOption_cons_of_some, ih]
    rfl
  | case3 q c cs hescape ih =>
    rw [List.reduceOption_cons_of_some, ih]
    cases cs with
    | nil => rfl
    | cons d ds =>
      have hc : c ≠ '\\' := fun hc => hescape d ds hc rfl
      have hscan : commentScan (if c = q then .code else .quoted q) =
          .code ((QuoteScan.quoted q).next c) := by
        rw [← modeQuotes_quoted hc]
        split_ifs <;> rfl
      rw [hscan]
      rfl
  | case4 cs ih => simpa [Contracts.stripFrom, commentScan, modeQuotes] using ih
  | case5 c cs hc ih => simpa [Contracts.stripFrom, commentScan, hc] using ih
  | case6 cs ih => simpa [Contracts.stripFrom, commentScan, modeQuotes] using ih
  | case7 c => simp [Contracts.stripFrom, commentScan]
  | case8 cs hclose hone ih =>
    rw [List.reduceOption_cons_of_none, ih]
    rfl
  | case9 c cs hclose hone hc ih =>
    rw [ih, commentScan, Contracts.stripFrom, if_neg]
    rintro ⟨rfl, hslash⟩
    obtain ⟨ds, rfl⟩ := List.head?_eq_some_iff.1 hslash
    exact hclose ds rfl rfl
  | case10 cs ih => simpa [Contracts.stripFrom, commentScan, modeQuotes] using ih
  | case11 cs ih => simpa [Contracts.stripFrom, commentScan, modeQuotes] using ih
  | case12 c cs hline hblock ih =>
    have hscan : commentScan (if c = '"' ∨ c = '\'' then .quoted c else .code) =
        .code (QuoteScan.plain.next c) := by
      rw [← modeQuotes_code]
      split_ifs <;> rfl
    change _ = Contracts.stripFrom (.code .plain) (c :: cs)
    rw [List.reduceOption_cons_of_some, ih, hscan, Contracts.stripFrom, if_neg, if_neg]
    · rintro ⟨rfl, hstar⟩
      obtain ⟨ds, rfl⟩ := List.head?_eq_some_iff.1 hstar
      exact hblock ds rfl rfl
    · rintro ⟨rfl, hslash⟩
      obtain ⟨ds, rfl⟩ := List.head?_eq_some_iff.1 hslash
      exact hline ds rfl rfl

/-- No mark stands inside quotes. -/
def MarksOutside : QuoteScan → Marked Char → Prop
  | _, [] => True
  | quote, none :: m => quote = .plain ∧ MarksOutside quote m
  | quote, some c :: m => MarksOutside (quote.next c) m

theorem marksOutside_marksFrom (mode : CommentMode) (t : Text) :
    MarksOutside (modeQuotes mode) (marksFrom mode t) := by
  fun_induction marksFrom mode t with
  | case1 => exact trivial
  | case2 q c cs ih => exact ih
  | case3 q c cs hescape ih =>
    cases cs with
    | nil => simp [marksFrom, MarksOutside]
    | cons d ds =>
      rw [modeQuotes_quoted fun hc => hescape d ds hc rfl] at ih
      exact ih
  | case4 cs ih => exact ih
  | case5 c cs hc ih => exact ih
  | case6 cs ih => exact ih
  | case7 c => exact trivial
  | case8 cs hclose hone ih => exact ⟨rfl, ih⟩
  | case9 c cs hclose hone hc ih => exact ih
  | case10 cs ih => exact ih
  | case11 cs ih => exact ih
  | case12 c cs hline hblock ih =>
    rw [modeQuotes_code] at ih
    exact ih

/-! ### Blocks and values -/

/-- The block that `_matching_brace` takes ends where `matching_delimiter` finds its brace. -/
theorem takeBlock_marks {depth : ℕ} {quote : QuoteScan} {m : Marked Char} {block rest : Text}
    (hdepth : 1 ≤ depth) (hm : MarksOutside quote m)
    (h : takeBlock depth quote m.reduceOption = some (block, rest)) :
    ∃ front m', m = front ++ some '}' :: m' ∧ front.reduceOption ++ ['}'] = block ∧
      m'.reduceOption = rest ∧ MarksOutside .plain m' ∧
      matchingDelimiter '{' '}' depth quote (filled '\n' m) = some front.length := by
  induction m generalizing depth quote block with
  | nil => cases h
  | cons o m ih =>
    cases o with
    | none =>
      obtain ⟨rfl, hm⟩ := hm
      obtain ⟨front, m', rfl, hblock, hrest, hm', hend⟩ := ih hdepth hm h
      refine ⟨none :: front, m', rfl, hblock, hrest, hm', ?_⟩
      simpa [matchingDelimiter] using hend
    | some c =>
      rw [List.reduceOption_cons_of_some] at h
      cases quote with
      | plain =>
        by_cases hclose : c = '}' ∧ depth ≤ 1
        · rw [takeBlock, if_pos hclose] at h
          obtain ⟨rfl, hone⟩ := hclose
          obtain rfl : depth = 1 := by omega
          obtain ⟨rfl, rfl⟩ := Prod.mk.inj (Option.some.inj h)
          exact ⟨[], m, rfl, rfl, rfl, hm, by simp [matchingDelimiter]⟩
        rw [takeBlock, if_neg hclose] at h
        obtain ⟨r, hr, heq⟩ := Option.map_eq_some_iff.1 h
        obtain ⟨rfl, rfl⟩ := Prod.mk.inj heq
        have hdepth' : 1 ≤ if c = '{' then depth + 1 else if c = '}' then depth - 1 else depth := by
          split_ifs with hopen hclose'
          · omega
          · by_contra hlt
            exact hclose ⟨hclose', by omega⟩
          · exact hdepth
        obtain ⟨front, m', rfl, hblock, hrest, hm', hend⟩ := ih hdepth' hm hr
        refine ⟨some c :: front, m', rfl, congrArg (c :: ·) hblock, hrest, hm', ?_⟩
        by_cases hq : c = '"' ∨ c = '\''
        · have hc : c ≠ '{' ∧ c ≠ '}' := by rcases hq with rfl | rfl <;> decide
          simpa [matchingDelimiter, hq, hc, QuoteScan.next] using hend
        by_cases hopen : c = '{'
        · subst hopen
          simpa [matchingDelimiter, QuoteScan.next] using hend
        by_cases hclose' : c = '}'
        · subst hclose'
          have htwo : 2 ≤ depth := by
            by_contra hlt
            exact hclose ⟨rfl, by omega⟩
          have hmore : ¬ ((depth : ℤ) - 1 = 0) := by omega
          have hcast : ((depth - 1 : ℕ) : ℤ) = (depth : ℤ) - 1 := by omega
          rw [if_neg (by decide), if_pos rfl, hcast] at hend
          simpa [matchingDelimiter, QuoteScan.next, hmore] using hend
        · simpa [matchingDelimiter, hq, hopen, hclose', QuoteScan.next] using hend
      | quoted q | escaped q =>
        obtain ⟨r, hr, heq⟩ := Option.map_eq_some_iff.1 h
        obtain ⟨rfl, rfl⟩ := Prod.mk.inj heq
        obtain ⟨front, m', rfl, hblock, hrest, hm', hend⟩ := ih hdepth hm hr
        refine ⟨some c :: front, m', rfl, congrArg (c :: ·) hblock, hrest, hm', ?_⟩
        simpa [matchingDelimiter] using hend

/-- A value without braces ends where `_scan_to_statement_end` finds its semicolon. -/
theorem takePayload_marks {round square : ℕ} {quote : QuoteScan} {m : Marked Char}
    {value rest : Text} (hm : MarksOutside quote m)
    (h : takePayload round square quote m.reduceOption = some (value, false, rest)) :
    ∃ front m', m = front ++ some ';' :: m' ∧ front.reduceOption = value ∧
      m'.reduceOption = rest ∧ MarksOutside .plain m' ∧
      ('}' ∉ unquoted quote value →
        statementEnd '}' ⟨quote, round, square, 0⟩ (filled '\n' m) = some front.length) := by
  induction m generalizing round square quote value with
  | nil => cases h
  | cons o m ih =>
    cases o with
    | none =>
      obtain ⟨rfl, hm⟩ := hm
      obtain ⟨front, m', rfl, hvalue, hrest, hm', hend⟩ := ih hm h
      refine ⟨none :: front, m', rfl, hvalue, hrest, hm', fun hbrace => ?_⟩
      have hend := hend hbrace
      simpa [statementEnd, StatementScan.stops, StatementScan.next, QuoteScan.next] using hend
    | some c =>
      rw [List.reduceOption_cons_of_some] at h
      cases quote with
      | plain =>
        by_cases hclose : c = ';' ∧ round = 0 ∧ square = 0
        · rw [takePayload, if_pos hclose] at h
          obtain ⟨rfl, rfl, rfl⟩ := hclose
          obtain ⟨rfl, rfl⟩ := by simpa using h
          exact ⟨[], m, rfl, rfl, rfl, hm, by simp [statementEnd, StatementScan.stops]⟩
        rw [takePayload, if_neg hclose] at h
        obtain ⟨⟨value', brace, rest'⟩, hr, heq⟩ := Option.map_eq_some_iff.1 h
        obtain ⟨rfl, hflag, rfl⟩ : c :: value' = value ∧ (brace || c == '{') = false ∧
            rest' = rest := by
          simpa using heq
        obtain ⟨rfl, hopen⟩ : brace = false ∧ c ≠ '{' := by simpa using hflag
        obtain ⟨front, m', rfl, hvalue, hrest, hm', hend⟩ := ih hm hr
        refine ⟨some c :: front, m', rfl, congrArg (c :: ·) hvalue, hrest, hm', fun hbrace => ?_⟩
        rw [unquoted, List.mem_cons, not_or] at hbrace
        obtain ⟨hcurly, hbrace⟩ := hbrace
        have hstops : StatementScan.stops '}' ⟨.plain, round, square, 0⟩ c = false := by
          simp only [StatementScan.stops]
          simpa [Ne.symm hcurly] using hclose
        rw [filled_cons, Option.getD_some, statementEnd, hstops, if_neg Bool.false_ne_true]
        have hnext : StatementScan.next ⟨.plain, round, square, 0⟩ c = ⟨QuoteScan.plain.next c,
            if c = '(' then round + 1 else if c = ')' then round - 1 else round,
            if c = '[' then square + 1 else if c = ']' then square - 1 else square, 0⟩ := by
          simp [StatementScan.next, hopen, Ne.symm hcurly]
        rw [hnext, hend hbrace]
        rfl
      | quoted q | escaped q =>
        obtain ⟨⟨value', brace, rest'⟩, hr, heq⟩ := Option.map_eq_some_iff.1 h
        obtain ⟨rfl, rfl, rfl⟩ : c :: value' = value ∧ brace = false ∧ rest' = rest := by
          simpa using heq
        obtain ⟨front, m', rfl, hvalue, hrest, hm', hend⟩ := ih hm hr
        refine ⟨some c :: front, m', rfl, congrArg (c :: ·) hvalue, hrest, hm', fun hbrace => ?_⟩
        have hend := hend hbrace
        simpa [statementEnd, StatementScan.stops, StatementScan.next] using hend

/-! ### Entries -/

/-- An entry as `_top_level_entry_payloads` reads it, with its marks. -/
structure EntryLayout where
  key : Text
  /-- The bare word at the front of the entry. -/
  word : Text
  /-- The value, up to the semicolon or the last brace. -/
  value : Marked Char

/-- The entry of `key` at the front of a marked text, and what stands behind it, when `rest` is
what stands behind it without the marks. -/
def layoutOf (m : Marked Char) (key rest : Text) : EntryLayout × Marked Char :=
  let front := m.dropWhile (blank isSpace)
  let tail := (dropKept key.length front).dropWhile (blank isSpace)
  let n := tail.reduceOption.length - rest.length
  ({ key
     word := (filled '\n' front).takeWhile bareCharacter
     value := takeKept (n - 1) tail }, dropKept n tail)

/-- The entries that the loop of `_top_level_entry_payloads` reads in a marked text. -/
def layoutsFrom : ℕ → Marked Char → List EntryLayout
  | 0, _ => []
  | fuel + 1, m =>
    match readEntry [] m.reduceOption with
    | .entry key _ _ rest => (layoutOf m key rest).1 :: layoutsFrom fuel (layoutOf m key rest).2
    | _ => []

/-- The entries that `_top_level_entry_payloads` reads in a text, with their marks. -/
def entryLayouts (text : Text) : List EntryLayout :=
  layoutsFrom ((stripFoamComments text).length + 1) (commentMarks text)

namespace EntryLayout

/-- A dictionary. -/
def braced (e : EntryLayout) : Bool := e.value.head? == some (some '{')

/-- The keyword is a whole bare word; a value that is no dictionary holds no `}` outside quotes,
and no block comment breaks its lines. -/
def Plain (e : EntryLayout) : Prop :=
  e.word = e.key ∧
    (e.braced = false →
      '}' ∉ unquoted .plain e.value.reduceOption ∧ none ∉ trim isSpace e.value)

instance (e : EntryLayout) : Decidable e.Plain := by unfold Plain; infer_instance

end EntryLayout

/-- What `parse_top_level_assignments` records for a payload. -/
def shownPayload (payload : Text) : Text :=
  if payload.head? = some '{' then "<dictionary>".toList else payload

/-- The second reader is complete too, and has the entries of the first. -/
def ReadersAgree (text : Text) : Prop :=
  (parseTopLevelAssignments text).2 = true ∧
    ∀ key, (parseTopLevelAssignments text).1.get key =
      ((topLevelEntryPayloads text).1.get key).map shownPayload

/-! ### One turn -/

/-- What an entry of `_top_level_entry_payloads` is made of. -/
theorem readEntry_inv {result : Entries} {text key payload rest : Text} {complete : Bool}
    (h : readEntry result text = .entry key payload complete rest) :
    ∃ c cs tail, key = c :: cs ∧ keyStart c = true ∧ (∀ d ∈ key, keyCharacter d = true) ∧
      text.dropWhile isSpace = key ++ tail ∧ key ∉ result.map Prod.fst ∧
      readValue key (tail.dropWhile isSpace) = .entry key payload complete rest := by
  unfold readEntry at h
  split at h
  · cases h
  rename_i c cs htext
  dsimp only at h
  split_ifs at h with hstart hnew
  have hc : keyStart c = true := by
    by_contra hc
    exact hstart (.inr (by simpa using hc))
  have hkey : key = c :: cs.takeWhile keyCharacter := by
    unfold readValue at h
    split at h <;> split at h <;> cases h <;> rfl
  subst hkey
  refine ⟨c, _, cs.dropWhile keyCharacter, rfl, hc, ?_, ?_, hnew, h⟩
  · rintro d (_ | ⟨_, hd⟩)
    · exact keyCharacter_of_keyStart hc
    · exact List.mem_takeWhile_imp hd
  · rw [htext, List.cons_append, List.takeWhile_append_dropWhile]

theorem readEntry_nil {result : Entries} {text key payload rest : Text} {complete : Bool}
    (h : readEntry result text = .entry key payload complete rest) :
    readEntry [] text = .entry key payload complete rest := by
  unfold readEntry at h ⊢
  split at h
  · cases h
  dsimp only at h ⊢
  split_ifs at h ⊢ with hstart hnil
  · cases hnil
  · exact h

/-- `parse_key` on a bare word. -/
theorem parseKey_word {text cs : Text} {c : Char} (htext : text.dropWhile isSpace = c :: cs)
    (hstart : keyStart c = true) (hbare : bareCharacter c = true) :
    parseKey text =
      (some ⟨(c :: cs).takeWhile bareCharacter, (c :: cs).takeWhile bareCharacter, .word, .literal⟩,
        (c :: cs).dropWhile bareCharacter) := by
  have hquote : ¬ (c = '"' ∨ c = '\'') := by rintro (rfl | rfl) <;> exact absurd hstart (by decide)
  have hraw : (c :: cs).takeWhile bareCharacter ≠ [] := by
    rw [List.takeWhile_cons_of_pos hbare]
    exact List.cons_ne_nil _ _
  have hdollar : c ≠ '$' := by rintro rfl; exact absurd hstart (by decide)
  have hhash : c ≠ '#' := by rintro rfl; exact absurd hstart (by decide)
  unfold parseKey
  rw [htext]
  dsimp only
  rw [if_neg hquote, if_neg hraw, if_neg hdollar, if_neg hhash]

theorem marksOutside_dropWhile {m : Marked Char} (h : MarksOutside .plain m) :
    MarksOutside .plain (m.dropWhile (blank isSpace)) := by
  induction m with
  | nil => exact h
  | cons o m ih =>
    by_cases ho : blank isSpace o = true
    · rw [List.dropWhile_cons_of_pos ho]
      refine ih ?_
      cases o with
      | none => exact h.2
      | some c =>
        have hc : ¬ (c = '"' ∨ c = '\'') := by
          rintro (rfl | rfl) <;> exact absurd ho (by decide)
        simpa [MarksOutside, QuoteScan.next, hc] using h
    · rwa [List.dropWhile_cons_of_neg ho]

theorem marksOutside_key {key : Text} {m : Marked Char} (hkey : ∀ c ∈ key, keyCharacter c = true)
    (h : MarksOutside .plain (key.map some ++ m)) : MarksOutside .plain m := by
  induction key with
  | nil => exact h
  | cons c cs ih =>
    have hc : ¬ (c = '"' ∨ c = '\'') := by
      rintro (rfl | rfl) <;> exact absurd (hkey _ List.mem_cons_self) (by decide)
    refine ih (fun d hd => hkey d (List.mem_cons_of_mem _ hd)) ?_
    simpa [MarksOutside, QuoteScan.next, hc] using h

theorem head?_strip {t : Text} {c : Char} (h : t.head? = some c) (hc : isSpace c = false) :
    (strip t).head? = some c :=
  head?_stripBy h hc

/-- What one turn of the second reader finds where the first reads an entry: `m` is read up to
`m'`. -/
def Delimits (m m' : Marked Char) (key payload : Text) : Prop :=
  (topLevelEntry (filled '\n' m) = .dictionary key (filled '\n' m') ∧ payload.head? = some '{') ∨
    ∃ tail, topLevelEntry (filled '\n' m) = .assigned key tail ∧
      tail.drop (scanToStatementEnd '}' tail + 1) = filled '\n' m' ∧ rawValue tail = payload ∧
      payload.head? ≠ some '{' ∧ payload ≠ []

/-- The turn of the second reader at a keyword that is a whole bare word. -/
theorem topLevelEntry_word {text key cs tail : Text} {c : Char} (hkey : key = c :: cs)
    (hstart : keyStart c = true) (htext : text.dropWhile isSpace = key ++ tail)
    (hword : (key ++ tail).takeWhile bareCharacter = key) :
    topLevelEntry text =
      if (tail.dropWhile isSpace).head? = some '{' then
        match matchingBrace (tail.dropWhile isSpace) with
        | none => .unfinished
        | some brace => .dictionary key ((tail.dropWhile isSpace).drop (brace + 1))
      else .assigned key (tail.dropWhile isSpace) := by
  have hdrop : (key ++ tail).dropWhile bareCharacter = tail := by
    have hsplit := List.takeWhile_append_dropWhile (p := bareCharacter) (l := key ++ tail)
    rw [hword] at hsplit
    exact List.append_cancel_left hsplit
  have hbare : bareCharacter c = true := by
    have hmem : c ∈ (key ++ tail).takeWhile bareCharacter := by
      rw [hword, hkey]
      exact List.mem_cons_self
    exact List.mem_takeWhile_imp hmem
  have hcons : text.dropWhile isSpace = c :: (cs ++ tail) := by rw [htext, hkey, List.cons_append]
  have hparse := parseKey_word hcons hstart hbare
  rw [← List.cons_append, ← hkey, hword, hdrop] at hparse
  unfold topLevelEntry
  rw [if_neg (by rw [hcons]; exact List.cons_ne_nil _ _), hparse]
  dsimp only
  refine (if_neg nofun).trans ?_
  rfl

/-- **One turn.** Where the first reader reads a plain entry, the second reads the same one. -/
theorem delimits_of_readEntry {result : Entries} {m : Marked Char} {key payload rest : Text}
    (hm : MarksOutside .plain m)
    (h : readEntry result m.reduceOption = .entry key payload true rest)
    (hplain : (layoutOf m key rest).1.Plain) :
    (layoutOf m key rest).2.reduceOption = rest ∧ MarksOutside .plain (layoutOf m key rest).2 ∧
      Delimits m (layoutOf m key rest).2 key payload := by
  obtain ⟨c, cs, tail, hkey, hstart, hchars, htext, -, hvalue⟩ := readEntry_inv h
  have hspace : isSpace '\n' = true := by decide
  rw [← reduceOption_dropWhile] at htext
  have hfront := marksOutside_dropWhile hm
  have hfill := filled_dropWhile hspace m
  obtain ⟨hword, hscalar⟩ := hplain
  simp only [layoutOf] at hword hscalar ⊢
  generalize m.dropWhile (blank isSpace) = front at htext hfront hfill hword hscalar ⊢
  -- the keyword holds no mark
  have hbreak : '\n' ∉ key := fun hmem => absurd (hchars _ hmem) (by decide)
  have hsplit := List.takeWhile_append_dropWhile (p := bareCharacter) (l := filled '\n' front)
  rw [hword] at hsplit
  obtain ⟨gap, rfl, hgap⟩ := exists_of_filled_eq_append hbreak hsplit.symm
  rw [reduceOption_map_some_append] at htext
  obtain rfl : gap.reduceOption = tail := List.append_cancel_left htext
  rw [dropKept_map_some] at hscalar ⊢
  rw [← reduceOption_dropWhile] at hvalue
  have htail := marksOutside_dropWhile (marksOutside_key hchars hfront)
  have hfilled : filled '\n' (key.map some ++ gap) = key ++ filled '\n' gap := by
    rw [← hsplit, hgap]
  rw [hfilled] at hword hfill
  have hturn := topLevelEntry_word hkey hstart hfill.symm hword
  rw [← filled_dropWhile hspace] at hturn
  have hhead := dropWhile_eq_some_cons (p := isSpace) gap
  generalize gap.dropWhile (blank isSpace) = tail at hscalar hvalue htail hturn hhead ⊢
  unfold Delimits
  rw [hturn]
  clear hturn hfill hword hfilled hgap hsplit htext
  unfold readValue at hvalue
  split at hvalue
  · -- a dictionary
    rename_i ds hds
    obtain ⟨ds', rfl⟩ : ∃ ds', tail = some '{' :: ds' := by
      cases tail with
      | nil => cases hds
      | cons o ds' =>
        obtain ⟨d, rfl, -⟩ := hhead o ds' rfl
        exact ⟨ds', by rw [(List.cons.inj hds).1]⟩
    split at hvalue
    · cases hvalue
    rename_i block rest' hblock
    injection hvalue with _ hpayload _ hrest
    subst hpayload hrest
    rw [List.reduceOption_cons_of_some, takeBlock, if_neg (by decide)] at hblock
    obtain ⟨⟨block', rest''⟩, hblock', heq⟩ := Option.map_eq_some_iff.1 hblock
    obtain ⟨rfl, rfl⟩ := Prod.mk.inj heq
    replace hblock' : takeBlock 1 .plain ds'.reduceOption = some (block', rest'') := hblock'
    replace htail : MarksOutside .plain ds' := by simpa [MarksOutside, QuoteScan.next] using htail
    obtain ⟨body, m', rfl, -, hrest, hm', hend⟩ := takeBlock_marks le_rfl htail hblock'
    have hlen : (some '{' :: (body ++ some '}' :: m')).reduceOption.length - rest''.length =
        (some '{' :: body).reduceOption.length + 1 := by
      rw [← hrest]
      simp [List.reduceOption_append, List.reduceOption_cons_of_some]
      omega
    have hdrop : dropKept ((some '{' :: body).reduceOption.length + 1)
        (some '{' :: (body ++ some '}' :: m')) = m' := dropKept_append (some '{' :: body) m' '}'
    have hbrace : matchingBrace (filled '\n' (some '{' :: (body ++ some '}' :: m'))) =
        some (body.length + 1) := by
      rw [matchingBrace, filled_cons, Option.getD_some, matchingDelimiter, if_neg (by decide),
        if_pos rfl]
      exact congrArg (Option.map (· + 1)) hend
    rw [hlen, hdrop]
    refine ⟨hrest, hm', .inl ⟨?_, head?_strip rfl (by decide)⟩⟩
    rw [if_pos (show (filled '\n' (some '{' :: _)).head? = some '{' from rfl), hbrace]
    exact congrArg _ (drop_filled_append (some '{' :: body) m' (some '}'))
  · -- a value
    rename_i hopen
    split at hvalue
    · cases hvalue
    rename_i value brace rest' hpayload
    injection hvalue with _ hstrip hcomplete hrest
    subst hstrip hrest
    obtain ⟨hflag, hne⟩ : brace = false ∧ strip value ≠ [] := by simpa using hcomplete
    subst hflag
    obtain ⟨body, m', rfl, hvalue, hrest, hm', hend⟩ := takePayload_marks htail hpayload
    obtain ⟨d, body', rfl, hd⟩ : ∃ d body', body = some d :: body' ∧ isSpace d = false := by
      cases body with
      | nil =>
        rw [← hvalue] at hne
        exact absurd rfl hne
      | cons o body' =>
        obtain ⟨d, rfl, hd⟩ := hhead o _ rfl
        exact ⟨d, body', rfl, hd⟩
    have hd' : d ≠ '{' := fun hd' => hopen _ (by rw [hd']; rfl)
    have hlen : (some d :: body' ++ some ';' :: m').reduceOption.length - rest'.length =
        (some d :: body').reduceOption.length + 1 := by
      rw [← hrest]
      simp [List.reduceOption_append, List.reduceOption_cons_of_some]
      omega
    rw [hlen, Nat.add_sub_cancel, takeKept_append] at hscalar
    obtain ⟨hcurly, htrim⟩ := hscalar (by simp [EntryLayout.braced, hd'])
    rw [hvalue] at hcurly
    have hend := hend hcurly
    rw [hlen, dropKept_append]
    refine ⟨hrest, hm', .inr ⟨filled '\n' (some d :: body' ++ some ';' :: m'), ?_, ?_, ?_, ?_, hne⟩⟩
    · rw [if_neg (by simpa using hd')]
    · rw [scanToStatementEnd, hend, Option.getD_some]
      exact drop_filled_append _ _ _
    · rw [rawValue, scanToStatementEnd, hend, Option.getD_some, take_filled, List.take_left,
        strip, stripBy, trim_filled hspace htrim, hvalue]
      rfl
    · rw [head?_strip (c := d) (by rw [← hvalue]; rfl) hd]
      simpa using hd'

/-! ### Runs -/

theorem get_append_entry {result : Entries} {key payload : Text}
    (hnew : key ∉ result.map Prod.fst) (k : Text) :
    Entries.get (result ++ [(key, payload)]) k =
      if k = key then some payload else result.get k := by
  unfold Entries.get
  rw [List.lookup_append]
  split_ifs with hk
  · subst hk
    rw [← Entries.get, Entries.get_eq_none hnew]
    simp
  · have : (k == key) = false := by simpa using hk
    simp [List.lookup_cons, this]

/-- **Runs.** A complete run of the first reader over plain entries is a run of the second. -/
theorem assignmentsFrom_of_entriesFrom {fuel : ℕ} (fuel' : ℕ) {result entries : Entries}
    {m : Marked Char} (parsed : Dict Text Text) (hm : MarksOutside .plain m)
    (h : entriesFrom fuel result true m.reduceOption = (entries, true))
    (hplain : ∀ e ∈ layoutsFrom fuel m, e.Plain) (hfuel : m.length < fuel')
    (hparsed : ∀ key, parsed.get key = (result.get key).map shownPayload) :
    let read := assignmentsFrom topLevelEntry topLevelValue fuel' parsed true (filled '\n' m)
    read.2 = true ∧ ∀ key, read.1.get key = (entries.get key).map shownPayload := by
  dsimp only
  induction fuel generalizing fuel' result m parsed with
  | zero => cases h
  | succ fuel ih =>
    obtain ⟨fuel', rfl⟩ : ∃ n, fuel' = n + 1 := ⟨fuel' - 1, by omega⟩
    rw [entriesFrom] at h
    split at h
    · -- only white space is left
      rename_i hstep
      obtain ⟨rfl, -⟩ := Prod.mk.inj h
      have hspaces : m.reduceOption.dropWhile isSpace = [] := by
        unfold readEntry at hstep
        split at hstep
        · assumption
        dsimp only at hstep
        unfold readValue at hstep
        split_ifs at hstep
        split at hstep <;> split at hstep <;> cases hstep
      have hfinished : topLevelEntry (filled '\n' m) = .finished := by
        unfold topLevelEntry
        rw [← filled_dropWhile (by decide)]
        rw [← reduceOption_dropWhile] at hspaces
        have hhead := dropWhile_eq_some_cons (p := isSpace) m
        generalize m.dropWhile (blank isSpace) = front at hspaces hhead
        cases front with
        | nil => rfl
        | cons o front =>
          obtain ⟨d, rfl, -⟩ := hhead o front rfl
          cases hspaces
      rw [assignmentsFrom, hfinished]
      exact ⟨rfl, hparsed⟩
    · cases h
    · rename_i key payload entryComplete rest hstep
      obtain rfl : entryComplete = true := by
        have := (entriesFrom_payload h).1
        simpa using this
      have hnil := readEntry_nil hstep
      rw [layoutsFrom, hnil] at hplain
      dsimp only at hplain
      obtain ⟨hhere, hlater⟩ := List.forall_mem_cons.1 hplain
      obtain ⟨hrest, hm', hturn⟩ := delimits_of_readEntry hm hstep hhere
      obtain ⟨-, -, -, -, -, -, -, hnew, -⟩ := readEntry_inv hstep
      generalize (layoutOf m key rest).2 = m' at hlater hrest hm' hturn
      subst hrest
      have hstepRest : (topLevelEntry (filled '\n' m)).rest = some (filled '\n' m') := by
        rcases hturn with ⟨hdict, -⟩ | ⟨tail, hassigned, hdrop, -⟩
        · rw [hdict]
          rfl
        · rw [hassigned, FoamStep.rest, hdrop]
      have hlength : m'.length < m.length := by
        simpa using topLevelEntry_length hstepRest
      have hrecord : ∀ k, Dict.get (parsed.insert key (shownPayload payload)) k =
          (Entries.get (result ++ [(key, payload)]) k).map shownPayload := by
        intro k
        rw [get_append_entry hnew, Dict.get_insert]
        split_ifs with hk
        · rfl
        · exact hparsed k
      have hrun := ih fuel' _ hm' h hlater (by omega) hrecord
      rw [assignmentsFrom]
      rcases hturn with ⟨hdict, hhead⟩ | ⟨tail, hassigned, hdrop, hraw, hhead, hne⟩
      · rw [shownPayload, if_pos hhead] at hrun
        rw [hdict]
        exact hrun
      · rw [shownPayload, if_neg hhead] at hrun
        rw [hassigned]
        dsimp only
        rw [hraw, topLevelValue, if_neg hne, hdrop]
        exact hrun

/-- **The two readers agree.** Where `_top_level_entry_payloads` reads literal entries completely,
each keyword is a whole bare word, and no value holds a `}` outside quotes or the line break
of a comment, `parse_top_level_assignments` is complete too and returns the same entries. -/
theorem readers_agree (text : Text) (hcomplete : (topLevelEntryPayloads text).2 = true)
    (hplain : ∀ e ∈ entryLayouts text, e.Plain) : ReadersAgree text := by
  have hkept : (commentMarks text).reduceOption = stripFoamComments text :=
    reduceOption_marksFrom .code text
  have hfilled : filled '\n' (commentMarks text) = stripComments text := filled_marksFrom .code text
  have hpair : topLevelEntryPayloads text = ((topLevelEntryPayloads text).1, true) :=
    Prod.ext rfl hcomplete
  rw [topLevelEntryPayloads, ← hkept] at hpair
  have hmarks : MarksOutside .plain (commentMarks text) := marksOutside_marksFrom .code text
  have hrun := assignmentsFrom_of_entriesFrom ((stripComments text).length + 1) ∅ hmarks hpair
    (by rw [hkept]; exact hplain) (by rw [← hfilled, length_filled]; exact Nat.lt_succ_self _)
    (fun key => by rw [Dict.get_empty]; rfl)
  unfold ReadersAgree parseTopLevelAssignments
  rw [hfilled, hkept] at hrun
  exact hrun

/-- A control dictionary with a comment of two lines, a list, a string and a dictionary. -/
def commentedControl : Text :=
  ["/* control\n   dictionary */\napplication solver; // solver\n", "libs (\"lib.so\" 'a;b');\n",
    "functions\n\x7b forces \x7b type forces; \x7d \x7d\nendTime 10 ;\n"].flatMap String.toList

theorem readers_agree_commentedControl : (topLevelEntryPayloads commentedControl).2 = true ∧
    (∀ e ∈ entryLayouts commentedControl, e.Plain) ∧ ReadersAgree commentedControl :=
  have hcomplete : (topLevelEntryPayloads commentedControl).2 = true := by decide +kernel
  have hplain : ∀ e ∈ entryLayouts commentedControl, e.Plain := by decide +kernel
  ⟨hcomplete, hplain, readers_agree _ hcomplete hplain⟩

theorem not_readersAgree {text k : Text} (h : (parseTopLevelAssignments text).1.get k ≠
    ((topLevelEntryPayloads text).1.get k).map shownPayload) : ¬ ReadersAgree text :=
  fun hagree => h (hagree.2 k)

/-- A keyword that goes on behind its last letter, a `}` in a value, and a comment of two lines in a
value: the first reader is complete, and the second has other entries. -/
theorem readers_differ :
    ((topLevelEntryPayloads "div:x 1;".toList).2 = true ∧ ¬ ReadersAgree "div:x 1;".toList) ∧
      ((topLevelEntryPayloads "a 1 \x7d 2;".toList).2 = true ∧
        ¬ ReadersAgree "a 1 \x7d 2;".toList) ∧
      (topLevelEntryPayloads "a 1/*\n*/2;".toList).2 = true ∧
        ¬ ReadersAgree "a 1/*\n*/2;".toList := by
  refine ⟨⟨by decide +kernel, not_readersAgree (k := "div".toList) ?_⟩,
    ⟨by decide +kernel, not_readersAgree (k := "a".toList) ?_⟩,
    ⟨by decide +kernel, not_readersAgree (k := "a".toList) ?_⟩⟩ <;> decide +kernel

end Verification
end OpenFoamAgent
