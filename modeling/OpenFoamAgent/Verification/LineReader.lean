/-
# The line reader of semantic case assertions

`_active_foam_content`, `_foam_dictionary_entries` and
`_foam_dictionary_entry_value` of `verification/safety.py`: the reader that
`DeterministicSafetyGate.validate_plan` asks for the value of an entry. It walks
the lines of the file with a stack of block names, the bare word a block may
still follow, and the statement read so far.

Values are compared up to white space, as `_normalize_foam_value` does: by
`words`. The last sections say what one line does to the reader, by the words of
the statement it holds.
-/
import OpenFoamAgent.Library.Dict
import OpenFoamAgent.Contracts.FoamReader

namespace OpenFoamAgent
namespace Verification

open Python Contracts

/-! ### Comments -/

/-- The characters up to and with the first `*/`. -/
def blockCommentLength : Text → Option ℕ
  | '*' :: '/' :: _ => some 2
  | _ :: cs => (blockCommentLength cs).map (· + 1)
  | [] => none

/-- `_BLOCK_COMMENT.sub("", content)`: `skip` characters belong to the last match. -/
def dropBlockComments : ℕ → Text → Text
  | _, [] => []
  | skip + 1, _ :: cs => dropBlockComments skip cs
  | 0, c :: cs =>
    match (if c = '/' ∧ cs.head? = some '*' then blockCommentLength (cs.drop 1) else none) with
    | some n => dropBlockComments (n + 1) cs
    | none => c :: dropBlockComments 0 cs

/-- `_LINE_COMMENT.sub("", content)`: whether the text stands in a match. -/
def dropLineComments : Bool → Text → Text
  | _, [] => []
  | true, c :: cs =>
    if c = '\n' ∨ c = '\r' then c :: dropLineComments false cs else dropLineComments true cs
  | false, c :: cs =>
    if c = '/' ∧ cs.head? = some '/' then dropLineComments true cs
    else c :: dropLineComments false cs

/-- `_active_foam_content`. -/
def activeFoamContent (content : Text) : Text :=
  dropLineComments false (dropBlockComments 0 content)

/-! ### What the two expressions keep -/

theorem blockCommentLength_le {t : Text} {n : ℕ} (h : blockCommentLength t = some n) :
    n ≤ t.length := by
  fun_induction blockCommentLength t generalizing n with
  | case1 cs =>
    cases h
    simp
  | case2 c cs hclose ih =>
    obtain ⟨m, hm, rfl⟩ := Option.map_eq_some_iff.1 h
    exact Nat.succ_le_succ (ih hm)
  | case3 => cases h

theorem blockCommentLength_append {t : Text} {n : ℕ} (h : blockCommentLength t = some n)
    (rest : Text) : blockCommentLength (t ++ rest) = some n := by
  fun_induction blockCommentLength t generalizing n with
  | case1 cs => exact h
  | case2 c cs hclose ih =>
    obtain ⟨m, hm, rfl⟩ := Option.map_eq_some_iff.1 h
    rw [List.cons_append, blockCommentLength, ih hm]
    · rfl
    · intro cs' hc hcs
      cases cs with
      | nil => cases hm
      | cons d ds =>
        rw [List.cons_append] at hcs
        exact hclose ds hc (by rw [(List.cons.inj hcs).1])
  | case3 => cases h

/-- A line comment ends at the newline behind it. -/
theorem dropLineComments_append {rest : Text} (hnewline : ∀ c ∈ rest.head?, c = '\n')
    (comment : Bool) (t : Text) :
    dropLineComments comment (t ++ rest) =
      dropLineComments comment t ++ dropLineComments false rest := by
  induction t generalizing comment with
  | nil =>
    rw [List.nil_append, dropLineComments, List.nil_append]
    cases rest with
    | nil => cases comment <;> rfl
    | cons c cs =>
      obtain rfl := hnewline c rfl
      cases comment <;> rfl
  | cons c cs ih =>
    cases comment with
    | true =>
      rw [List.cons_append, dropLineComments, dropLineComments]
      split_ifs
      · exact congrArg (c :: ·) (ih false)
      · exact ih true
    | false =>
      rw [List.cons_append, dropLineComments, dropLineComments]
      have hhead : (c = '/' ∧ (cs ++ rest).head? = some '/') ↔ (c = '/' ∧ cs.head? = some '/') := by
        cases cs with
        | nil =>
          refine ⟨fun h => ?_, fun h => nomatch h.2⟩
          exact absurd (hnewline '/' h.2) (by decide)
        | cons d ds => exact Iff.rfl
      simp only [hhead]
      split_ifs
      · exact ih true
      · exact congrArg (c :: ·) (ih false)

theorem dropBlockComments_sublist (skip : ℕ) (t : Text) : (dropBlockComments skip t).Sublist t := by
  fun_induction dropBlockComments skip t with
  | case1 => exact List.Sublist.refl _
  | case2 skip c cs ih => exact ih.cons c
  | case3 c cs n hn ih => exact ih.cons c
  | case4 c cs hn ih => exact ih.cons_cons c

theorem dropLineComments_sublist (comment : Bool) (t : Text) :
    (dropLineComments comment t).Sublist t := by
  fun_induction dropLineComments comment t with
  | case1 => exact List.Sublist.refl _
  | case2 c cs h ih => exact ih.cons_cons c
  | case3 c cs h ih => exact ih.cons c
  | case4 c cs h ih => exact ih.cons c
  | case5 c cs h ih => exact ih.cons_cons c

/-- Where the expressions remove nothing, neither does. -/
theorem kept_of_activeFoamContent {t : Text} (h : activeFoamContent t = t) :
    dropBlockComments 0 t = t ∧ dropLineComments false t = t := by
  unfold activeFoamContent at h
  have hline := dropLineComments_sublist false (dropBlockComments 0 t)
  have hblock := dropBlockComments_sublist 0 t
  have heq : dropBlockComments 0 t = t := by
    refine hblock.eq_of_length_le ?_
    conv_lhs => rw [← h]
    exact hline.length_le
  rw [heq] at h
  exact ⟨heq, h⟩

/-- A text without a line comment stays in front of another one. -/
theorem dropLineComments_kept {t : Text} (h : dropLineComments false t = t)
    (hlast : t.getLast? ≠ some '/') (rest : Text) :
    dropLineComments false (t ++ rest) = t ++ dropLineComments false rest := by
  induction t with
  | nil => rfl
  | cons c cs ih =>
    rw [dropLineComments] at h
    split_ifs at h with hmark
    · have hlength := (dropLineComments_sublist true cs).length_le
      rw [h] at hlength
      simp at hlength
    · have hmark' : ¬(c = '/' ∧ (cs ++ rest).head? = some '/') := by
        cases cs with
        | nil => exact fun h => hlast (by rw [h.1]; rfl)
        | cons d ds => exact hmark
      rw [List.cons_append, dropLineComments, if_neg hmark',
        ih (List.cons.inj h).2 fun h => hlast (by rw [List.getLast?_cons, h]; rfl)]
      rfl

/-! ### Lines, words and statements -/

/-- The characters that end a line for `str.splitlines`. -/
def isLineBreak (c : Char) : Bool :=
  let n := c.toNat
  (10 ≤ n && n ≤ 13) || (28 ≤ n && n ≤ 30) || n == 133 || n == 8232 || n == 8233

/-- `str.splitlines()`, behind the text `line` of the line at hand. -/
def splitlinesFrom (line : Text) : Text → List Text
  | [] => if line = [] then [] else [line]
  | '\r' :: '\n' :: cs => line :: splitlinesFrom [] cs
  | c :: cs =>
    if isLineBreak c then line :: splitlinesFrom [] cs else splitlinesFrom (line ++ [c]) cs

/-- `str.splitlines()`. -/
def splitlines (t : Text) : List Text := splitlinesFrom [] t

/-- `str.split()`. -/
def words (t : Text) : List Text := (t.splitOnP isSpace).filter (· ≠ [])

/-- `re.fullmatch(r"[A-Za-z_][A-Za-z0-9_:+-]*", t)`. -/
def bareWord : Text → Bool
  | [] => false
  | c :: cs =>
    (isAsciiLetter c || c == '_') && cs.all fun d => isAsciiWord d || d == ':' || d == '+' || d == '-'

/-- The first part of `chunk.strip().split(None, 1)`. -/
def splitKey (chunk : Text) : Text := (strip chunk).takeWhile fun c => !isSpace c

/-- The second part of `chunk.strip().split(None, 1)`, empty when there is none. -/
def splitValue (chunk : Text) : Text :=
  ((strip chunk).dropWhile fun c => !isSpace c).dropWhile isSpace

/-- The key and the value a chunk assigns, if it is an assignment. -/
def assignment (chunk : Text) : Option (Text × Text) :=
  if splitValue chunk = [] ∨ !bareWord (splitKey chunk) then none
  else some (splitKey chunk, strip (splitValue chunk))

/-- `while ";" in statement: chunk, statement = statement.split(";", 1)`, behind the
characters `chunk` of a statement: the chunks and what is left. -/
def readStatements (chunk : Text) : Text → List Text × Text
  | [] => ([], chunk)
  | c :: cs =>
    if c = ';' then
      let r := readStatements [] cs
      (chunk :: r.1, r.2)
    else readStatements (chunk ++ [c]) cs

/-! ### The reader -/

/-- `".".join(names)`. -/
def dotted (names : List Text) : Text := List.intercalate ['.'] names

/-- The variables of `_foam_dictionary_entries`. -/
structure LineReader where
  stack : List Text
  pending : Option Text
  statement : Text
  entries : Dict Text Text

/-- `entries[".".join([*stack, key])] = value.strip()`, for a chunk that is an assignment. -/
def assign (stack : List Text) (entries : Dict Text Text) (chunk : Text) : Dict Text Text :=
  match assignment chunk with
  | some (key, value) => entries.insert (dotted (stack ++ [key])) value
  | none => entries

/-- One turn of the loop of `_foam_dictionary_entries`. -/
def readLine (reader : LineReader) (rawLine : Text) : LineReader :=
  let line := strip rawLine
  if line = [] then reader
  else if line = ['{'] then
    match reader.pending with
    | some (c :: cs) => { reader with stack := reader.stack ++ [c :: cs], pending := none }
    | _ => reader
  else if ['}'].isPrefixOf line then
    { reader with stack := reader.stack.dropLast, pending := none, statement := [] }
  else if ['{'].isSuffixOf line then
    let key := strip line.dropLast
    { reader with
      stack := if key = [] then reader.stack else reader.stack ++ [key], pending := none }
  else if ';' ∉ line then
    if bareWord line then { reader with pending := some line, statement := [] }
    else { reader with statement := strip (reader.statement ++ ' ' :: line) }
  else
    let r := readStatements [] (strip (reader.statement ++ ' ' :: line))
    { reader with
      entries := r.1.foldl (assign reader.stack) reader.entries, statement := r.2, pending := none }

/-- `_foam_dictionary_entries`. -/
def foamDictionaryEntries (content : Text) : Dict Text Text :=
  ((splitlines (activeFoamContent content)).foldl readLine ⟨[], none, [], ∅⟩).entries

/-- `_foam_dictionary_entry_value`. -/
def foamDictionaryEntryValue (content entryPath : Text) : Option Text :=
  (foamDictionaryEntries content).get entryPath

/-- Blocks, several statements on a line and a value on two lines are read as the source
reads them. -/
example :
    foamDictionaryEntryValue "a\n\x7b\n b 1; c /* k */ 2;\n d\n 3 4 // x\n ;\n\x7d\ne  5 6 ;".toList
      "a.c".toList = some "2".toList ∧
    foamDictionaryEntryValue "a \x7b\n b 1;\n\x7d\ne\t5\n\n6 ;".toList "e".toList =
      some "5 6".toList := by
  decide +kernel

/-! ### Words -/

theorem words_append_space {c : Char} (hc : isSpace c) (x y : Text) :
    words (x ++ c :: y) = words x ++ words y := by
  unfold words
  rw [List.splitOnP_append_cons x y hc, List.filter_append]

theorem words_of_noSpace {w : Text} (hne : w ≠ []) (hw : ∀ c ∈ w, isSpace c = false) :
    words w = [w] := by
  unfold words
  rw [List.splitOnP_eq_singleton hw]
  simp [hne]

@[simp] theorem words_nil : words [] = [] := by
  simp [words]

theorem words_space_cons {c : Char} (hc : isSpace c) (t : Text) : words (c :: t) = words t := by
  have h := words_append_space hc [] t
  rwa [words_nil, List.nil_append, List.nil_append] at h

theorem words_spaces_append {b : Text} (hb : ∀ c ∈ b, isSpace c) (t : Text) :
    words (b ++ t) = words t := by
  induction b with
  | nil => rfl
  | cons c cs ih =>
    rw [List.cons_append, words_space_cons (hb c List.mem_cons_self)]
    exact ih fun d hd => hb d (List.mem_cons_of_mem _ hd)

theorem words_append_spaces {a : Text} (ha : ∀ c ∈ a, isSpace c) (t : Text) :
    words (t ++ a) = words t := by
  induction a generalizing t with
  | nil => rw [List.append_nil]
  | cons c cs ih =>
    rw [words_append_space (ha c List.mem_cons_self)]
    have hcs := ih (fun d hd => ha d (List.mem_cons_of_mem _ hd)) []
    rw [List.nil_append, words_nil] at hcs
    rw [hcs, List.append_nil]

@[simp] theorem words_strip (t : Text) : words (strip t) = words t := by
  obtain ⟨b, a, ht, hb, ha⟩ := exists_spaces_strip t
  conv_rhs => rw [ht, words_append_spaces ha, words_spaces_append hb]

theorem words_word_append {w r : Text} (hne : w ≠ []) (hw : ∀ c ∈ w, isSpace c = false)
    (hr : ∀ c ∈ r.head?, isSpace c) : words (w ++ r) = w :: words r := by
  cases r with
  | nil => rw [List.append_nil, words_of_noSpace hne hw, words_nil]
  | cons c cs =>
    have hc : isSpace c := hr c rfl
    rw [words_append_space hc, words_of_noSpace hne hw, words_space_cons hc]
    rfl

theorem head?_dropWhile {p : Char → Bool} {t : Text} : ∀ c ∈ (t.dropWhile p).head?, p c = false := by
  intro c hc
  have h := List.head?_dropWhile_not p t
  rwa [Option.mem_def.1 hc] at h

/-- A text that is not blank begins with its key. -/
theorem words_eq_cons {t : Text} (h : strip t ≠ []) :
    words t = splitKey t :: words (splitValue t) := by
  have hhead : ∀ c ∈ (strip t).head?, isSpace c = false := by
    intro c hc
    have hpre : strip t <+: t.dropWhile isSpace := List.rdropWhile_prefix _ _
    obtain ⟨r, hr⟩ := hpre
    refine head?_dropWhile (p := isSpace) (t := t) c ?_
    rw [← hr, List.head?_append_of_ne_nil _ h]
    exact hc
  have hsplit : strip t = splitKey t ++ (strip t).dropWhile fun c => !isSpace c :=
    (List.takeWhile_append_dropWhile).symm
  have hkey : splitKey t ≠ [] := by
    obtain ⟨c, cs, hc⟩ := List.exists_cons_of_ne_nil h
    have hspace : isSpace c = false := hhead c (by rw [hc]; rfl)
    rw [splitKey, hc, List.takeWhile_cons_of_pos (by rw [hspace]; rfl)]
    exact List.cons_ne_nil _ _
  have hrest : words ((strip t).dropWhile fun c => !isSpace c) = words (splitValue t) := by
    conv_lhs => rw [← List.takeWhile_append_dropWhile (p := isSpace)
      (l := (strip t).dropWhile fun c => !isSpace c)]
    exact words_spaces_append (fun c hc => List.mem_takeWhile_imp hc) _
  rw [← words_strip, hsplit, words_word_append hkey, hrest]
  · exact fun c hc => by simpa using List.mem_takeWhile_imp hc
  · exact fun c hc => by simpa using head?_dropWhile c hc

theorem words_eq_nil {t : Text} : words t = [] ↔ strip t = [] := by
  constructor
  · intro h
    by_contra hne
    rw [words_eq_cons hne] at h
    cases h
  · intro h
    rw [← words_strip, h, words_nil]

theorem splitValue_eq_nil {t : Text} : splitValue t = [] ↔ words (splitValue t) = [] := by
  constructor
  · intro h
    rw [h, words_nil]
  · intro h
    by_contra hne
    obtain ⟨c, cs, hc⟩ := List.exists_cons_of_ne_nil hne
    have hspace : isSpace c = false := head?_dropWhile c (by rw [← splitValue, hc]; rfl)
    refine strip_ne_nil (t := splitValue t) (c := c) ?_ (by simp [hspace]) (words_eq_nil.1 h)
    rw [hc]
    exact List.mem_cons_self

/-! ### Assignments -/

theorem assignment_eq_some {chunk key value : Text} (h : assignment chunk = some (key, value)) :
    words chunk = key :: words value ∧ words value ≠ [] ∧ bareWord key := by
  unfold assignment at h
  split_ifs at h with hc
  rw [not_or] at hc
  obtain ⟨hvalue, hkey⟩ := hc
  obtain ⟨rfl, rfl⟩ := Prod.mk.inj (Option.some.inj h)
  have hne : strip chunk ≠ [] := by
    intro hnil
    exact hvalue (by rw [splitValue, hnil]; rfl)
  rw [words_strip]
  exact ⟨words_eq_cons hne, fun hnil => hvalue (splitValue_eq_nil.2 hnil), by simpa using hkey⟩

theorem assignment_of_words {chunk key : Text} {rest : List Text} (h : words chunk = key :: rest)
    (hrest : rest ≠ []) (hkey : bareWord key) :
    ∃ value, assignment chunk = some (key, value) ∧ words value = rest := by
  have hne : strip chunk ≠ [] := by
    intro hnil
    rw [words_eq_nil.2 hnil] at h
    cases h
  rw [words_eq_cons hne] at h
  obtain ⟨hk, hv⟩ := List.cons.inj h
  refine ⟨strip (splitValue chunk), ?_, by rw [words_strip, hv]⟩
  rw [assignment, hk, if_neg]
  rw [not_or]
  exact ⟨fun hnil => hrest (by rw [← hv, hnil, words_nil]), by simp [hkey]⟩

/-- Chunks of the same words assign the same key, and values of the same words. -/
theorem assignment_congr {q c key value : Text} (hqc : words q = words c)
    (h : assignment q = some (key, value)) :
    ∃ value', assignment c = some (key, value') ∧ words value' = words value := by
  obtain ⟨hwords, hne, hkey⟩ := assignment_eq_some h
  exact assignment_of_words (hqc ▸ hwords) hne hkey

/-! ### Statements -/

theorem readStatements_append (x a b : Text) :
    readStatements x (a ++ b) =
      ((readStatements x a).1 ++ (readStatements (readStatements x a).2 b).1,
        (readStatements (readStatements x a).2 b).2) := by
  induction a generalizing x with
  | nil => rfl
  | cons c cs ih =>
    rw [List.cons_append, readStatements, readStatements]
    split_ifs
    · rw [ih]
      rfl
    · exact ih _

theorem readStatements_of_notMem {a : Text} (h : ';' ∉ a) (x : Text) :
    readStatements x a = ([], x ++ a) := by
  induction a generalizing x with
  | nil => rw [readStatements, List.append_nil]
  | cons c cs ih =>
    rw [List.mem_cons, not_or] at h
    rw [readStatements, if_neg (Ne.symm h.1), ih h.2, List.append_assoc]
    rfl

/-- Behind a semicolon the characters before it do not matter. -/
theorem readStatements_semicolon {a : Text} (h : ';' ∉ a) (x b : Text) :
    readStatements x (a ++ ';' :: b) =
      ((x ++ a) :: (readStatements [] b).1, (readStatements [] b).2) := by
  rw [readStatements_append, readStatements_of_notMem h]
  rfl

theorem notMem_readStatements {x : Text} (hx : ';' ∉ x) (t : Text) :
    ';' ∉ (readStatements x t).2 ∧ ∀ c ∈ (readStatements x t).1, ';' ∉ c := by
  induction t generalizing x with
  | nil => exact ⟨hx, fun c hc => absurd hc List.not_mem_nil⟩
  | cons d ds ih =>
    rw [readStatements]
    split_ifs with hd
    · obtain ⟨h2, h1⟩ := ih (x := []) List.not_mem_nil
      refine ⟨h2, fun c hc => ?_⟩
      rcases List.mem_cons.1 hc with rfl | hc
      · exact hx
      · exact h1 c hc
    · refine ih fun hmem => ?_
      rcases List.mem_append.1 hmem with hmem | hmem
      · exact hx hmem
      · exact hd (List.mem_singleton.1 hmem).symm

/-- The statements of a text and what is left are the text again. -/
theorem readStatements_flatten (x t : Text) :
    ((readStatements x t).1.flatMap fun c => c ++ [';']) ++ (readStatements x t).2 = x ++ t := by
  induction t generalizing x with
  | nil => simp [readStatements]
  | cons d ds ih =>
    rw [readStatements]
    split_ifs with hd
    · subst hd
      rw [List.flatMap_cons, List.append_assoc, ih, List.append_assoc]
      rfl
    · rw [ih, List.append_assoc]
      rfl

/-- The same statements, and the same rest, up to white space. -/
structure Similar (r r' : List Text × Text) : Prop where
  statements : r.1.map words = r'.1.map words
  rest : words r.2 = words r'.2

theorem Similar.trans {r r' r'' : List Text × Text} (h : Similar r r') (h' : Similar r' r'') :
    Similar r r'' where
  statements := h.statements.trans h'.statements
  rest := h.rest.trans h'.rest

/-- The reading depends on the characters before it by the words they begin. -/
theorem readStatements_congr {s x : Text} (h : ∀ y, words (s ++ y) = words (x ++ y)) (t : Text) :
    Similar (readStatements s t) (readStatements x t) := by
  induction t generalizing s x with
  | nil =>
    have hw := h []
    rw [List.append_nil, List.append_nil] at hw
    exact ⟨rfl, hw⟩
  | cons c cs ih =>
    rw [readStatements, readStatements]
    split_ifs
    · obtain ⟨hs, hr⟩ := ih (s := []) (x := []) fun _ => rfl
      have hw := h []
      rw [List.append_nil, List.append_nil] at hw
      exact ⟨congrArg₂ List.cons hw hs, hr⟩
    · refine ih fun y => ?_
      rw [List.append_assoc, List.append_assoc]
      exact h _

theorem semicolon_notMem_spaces {b : Text} (hb : ∀ c ∈ b, isSpace c) : ';' ∉ b :=
  fun hmem => absurd (hb _ hmem) (by decide)

/-- White space before and behind the text changes no statement. -/
theorem readStatements_padded {s x b a : Text} (h : ∀ y, words (s ++ y) = words (x ++ b ++ y))
    (hb : ∀ c ∈ b, isSpace c) (ha : ∀ c ∈ a, isSpace c) (t : Text) :
    Similar (readStatements s t) (readStatements x (b ++ t ++ a)) := by
  have hsplit : readStatements x (b ++ t ++ a) =
      ((readStatements (x ++ b) t).1, (readStatements (x ++ b) t).2 ++ a) := by
    rw [List.append_assoc, readStatements_append, readStatements_of_notMem (semicolon_notMem_spaces hb),
      readStatements_append, readStatements_of_notMem (semicolon_notMem_spaces ha)]
    simp
  obtain ⟨hs, hr⟩ := readStatements_congr h t
  rw [hsplit]
  exact ⟨hs, hr.trans (words_append_spaces ha _).symm⟩

/-- No word reaches over the end of the text. -/
def Separated (x : Text) : Prop := ∀ y, words (x ++ y) = words x ++ words y

theorem separated_nil : Separated [] := fun y => by rw [words_nil]; rfl

theorem separated_concat {c : Char} (hc : isSpace c) (x : Text) : Separated (x ++ [c]) := by
  intro y
  rw [List.append_assoc, List.singleton_append, words_append_space hc, words_append_space hc, words_nil,
    List.append_nil]

/-- The reader cuts the statement it holds and the line into the statements of the text,
when it holds the words the text has begun. -/
theorem readStatements_line {s x : Text} (hs : ';' ∉ s) (hw : words s = words x)
    (hx : Separated x) (rawLine : Text) :
    Similar (readStatements [] (strip (s ++ ' ' :: strip rawLine))) (readStatements x rawLine) := by
  have hstrip : Similar (readStatements [] (strip (s ++ ' ' :: strip rawLine)))
      (readStatements [] (s ++ ' ' :: strip rawLine)) := by
    obtain ⟨b, a, ht, hb, ha⟩ := exists_spaces_strip (s ++ ' ' :: strip rawLine)
    conv_rhs => rw [ht]
    refine readStatements_padded (s := []) (x := []) (fun y => ?_) hb ha _
    exact (words_spaces_append hb y).symm
  have hopen : readStatements [] (s ++ ' ' :: strip rawLine) =
      readStatements (s ++ [' ']) (strip rawLine) := by
    rw [readStatements_append, readStatements_of_notMem hs, readStatements, if_neg (by decide)]
    rfl
  have hline : Similar (readStatements (s ++ [' ']) (strip rawLine)) (readStatements x rawLine) := by
    obtain ⟨b, a, ht, hb, ha⟩ := exists_spaces_strip rawLine
    conv_rhs => rw [ht]
    refine readStatements_padded (fun y => ?_) hb ha _
    rw [List.append_assoc, List.singleton_append, words_append_space (by decide), hw,
      List.append_assoc, hx, words_spaces_append hb]
  exact hstrip.trans (hopen ▸ hline)

/-! ### Lines -/

theorem readLine_blank {l : Text} (h : strip l = []) (reader : LineReader) :
    readLine reader l = reader := by
  rw [readLine, if_pos h]

/-- The reader sees a line without the white space around it. -/
theorem readLine_congr {l l' : Text} (h : strip l = strip l') (reader : LineReader) :
    readLine reader l = readLine reader l' := by
  unfold readLine
  rw [h]

/-- The line neither begins with a closing nor ends with an opening brace. -/
def Plain (l : Text) : Prop :=
  ['}'].isPrefixOf (strip l) = false ∧ ['{'].isSuffixOf (strip l) = false

instance (l : Text) : Decidable (Plain l) := inferInstanceAs (Decidable (_ ∧ _))

theorem Plain.ne_brace {l : Text} (h : Plain l) : strip l ≠ ['{'] := by
  intro heq
  have := h.2
  rw [heq] at this
  revert this
  decide

theorem semicolon_mem_strip {l : Text} : ';' ∈ strip l ↔ ';' ∈ l := by
  obtain ⟨b, a, ht, hb, ha⟩ := exists_spaces_strip l
  constructor
  · intro h
    rw [ht]
    exact List.mem_append_left _ (List.mem_append_right _ h)
  · intro h
    rw [ht] at h
    rcases List.mem_append.1 h with h | h
    · rcases List.mem_append.1 h with h | h
      · exact absurd h (semicolon_notMem_spaces hb)
      · exact h
    · exact absurd h (semicolon_notMem_spaces ha)

theorem bareWord_noSemicolon {t : Text} (h : bareWord t) : ';' ∉ t := by
  cases t with
  | nil => exact List.not_mem_nil
  | cons c cs =>
    rw [bareWord, Bool.and_eq_true] at h
    obtain ⟨hc, hcs⟩ := h
    rintro (_ | ⟨_, hmem⟩)
    · exact absurd hc (by decide)
    · exact absurd (List.all_eq_true.1 hcs _ hmem) (by decide)

/-- A bare word drops the statement read so far. -/
theorem readLine_bareWord {l : Text} (hp : Plain l) (hb : bareWord (strip l))
    (reader : LineReader) :
    readLine reader l = { reader with pending := some (strip l), statement := [] } := by
  have hne : strip l ≠ [] := by
    intro hnil
    rw [hnil] at hb
    cases hb
  rw [readLine]
  simp only [hne, hp.ne_brace, hp.1, hp.2, bareWord_noSemicolon hb, hb, if_false, if_true,
    Bool.false_eq_true, not_false_eq_true]

/-- A line without a semicolon is added to the statement. -/
theorem readLine_open {l : Text} (hne : strip l ≠ []) (hp : Plain l) (hb : ¬ bareWord (strip l))
    (hs : ';' ∉ l) (reader : LineReader) :
    readLine reader l =
      { reader with statement := strip (reader.statement ++ ' ' :: strip l) } := by
  have hs' : ';' ∉ strip l := fun h => hs (semicolon_mem_strip.1 h)
  rw [readLine]
  simp only [hne, hp.ne_brace, hp.1, hp.2, hs', hb, if_false, if_true, Bool.false_eq_true,
    not_false_eq_true]

/-- A line with a semicolon ends statements. -/
theorem readLine_statements {l : Text} (hp : Plain l) (hs : ';' ∈ l) (reader : LineReader) :
    readLine reader l =
      { reader with
        entries := (readStatements [] (strip (reader.statement ++ ' ' :: strip l))).1.foldl
          (assign reader.stack) reader.entries,
        statement := (readStatements [] (strip (reader.statement ++ ' ' :: strip l))).2,
        pending := none } := by
  have hs' : ';' ∈ strip l := semicolon_mem_strip.2 hs
  have hne : strip l ≠ [] := List.ne_nil_of_mem hs'
  rw [readLine]
  simp only [hne, hp.ne_brace, hp.1, hp.2, hs', if_false, Bool.false_eq_true, not_true_eq_false]

theorem strip_eq_nil {t : Text} : strip t = [] ↔ ∀ c ∈ t, isSpace c := by
  constructor
  · intro h c hc
    by_contra hs
    exact strip_ne_nil hc hs h
  · intro h
    rw [← words_eq_nil]
    have hw := words_append_spaces h []
    rwa [words_nil, List.nil_append] at hw

/-- White space around a text is stripped with it. -/
theorem strip_padded {b a : Text} (hb : strip b = []) (ha : strip a = []) (t : Text) :
    strip (b ++ t ++ a) = strip t := by
  rw [strip_eq_nil] at hb ha
  have hleft : ∀ t, strip (b ++ t) = strip t := fun t => by
    rw [strip, stripBy, List.dropWhile_append_of_pos hb]
    rfl
  rw [List.append_assoc, hleft]
  clear hleft
  induction a using List.reverseRecOn with
  | nil => rw [List.append_nil]
  | append_singleton a c ih =>
    have hc : isSpace c := ha c (by simp)
    rw [← ih fun d hd => ha d (by simp [hd]), ← List.append_assoc, strip, strip, stripBy, stripBy,
      List.dropWhile_append]
    split_ifs with hempty
    · rw [List.isEmpty_iff.1 hempty, List.dropWhile_cons_of_pos hc, List.dropWhile_nil]
    · exact List.rdropWhile_concat_pos _ _ _ hc

/-- A bare word is plain. -/
theorem bareWord_plain {l : Text} (h : bareWord (strip l)) : Plain l := by
  have hmem : ∀ c ∈ strip l, c ≠ '{' ∧ c ≠ '}' := by
    intro c hc
    generalize strip l = t at h hc
    cases t with
    | nil => cases h
    | cons d ds =>
      rw [bareWord, Bool.and_eq_true] at h
      rcases List.mem_cons.1 hc with rfl | hc
      · constructor <;> (rintro rfl; exact absurd h.1 (by decide))
      · constructor <;> (rintro rfl; exact absurd (List.all_eq_true.1 h.2 _ hc) (by decide))
  constructor
  · rw [Bool.eq_false_iff]
    intro hpre
    exact (hmem '}' ((List.isPrefixOf_iff_prefix.1 hpre).subset (by simp))).2 rfl
  · rw [Bool.eq_false_iff]
    intro hsuf
    exact (hmem '{' ((List.isSuffixOf_iff_suffix.1 hsuf).subset (by simp))).1 rfl

/-- A text that does not begin with white space keeps its first character. -/
theorem strip_cons {c : Char} (hc : ¬ isSpace c) (t : Text) : ∃ t', strip (c :: t) = c :: t' := by
  obtain ⟨b, a, ht, hb, -⟩ := exists_spaces_strip (c :: t)
  cases b with
  | cons d ds =>
    obtain ⟨rfl, -⟩ := List.cons.inj (List.append_assoc .. ▸ ht)
    exact absurd (hb c List.mem_cons_self) hc
  | nil =>
    have hne : strip (c :: t) ≠ [] := strip_ne_nil List.mem_cons_self hc
    obtain ⟨d, ds, hd⟩ := List.exists_cons_of_ne_nil hne
    rw [hd] at ht ⊢
    obtain ⟨rfl, -⟩ := List.cons.inj ht
    exact ⟨ds, rfl⟩

/-- A closing brace at the start of a line ends the block. -/
theorem readLine_close {indent : Text} (hi : strip indent = []) (rest : Text)
    (reader : LineReader) :
    readLine reader (indent ++ '}' :: rest) =
      { reader with stack := reader.stack.dropLast, pending := none, statement := [] } := by
  obtain ⟨t, ht⟩ := strip_cons (c := '}') (by decide) rest
  have hstrip : strip (indent ++ '}' :: rest) = '}' :: t := by
    have := strip_padded hi (a := []) rfl ('}' :: rest)
    rwa [List.append_nil, ht] at this
  rw [readLine]
  simp [hstrip]

theorem strip_openBrace (name : Text) {gap : Text} (hg : strip gap = []) :
    ∃ name', strip (name ++ '{' :: gap) = name' ++ ['{'] ∧ strip name' = strip name ∧
      (strip name = [] → name' = []) := by
  refine ⟨name.dropWhile isSpace, ?_, ?_, ?_⟩
  · have h := strip_padded (b := []) rfl hg (name ++ ['{'])
    rw [List.nil_append, List.append_assoc, List.singleton_append] at h
    rw [h, strip, stripBy, List.dropWhile_append]
    split_ifs with hempty
    · rw [List.isEmpty_iff.1 hempty]
      rfl
    · exact List.rdropWhile_concat_neg _ _ _ (by decide)
  · rw [strip, strip, stripBy, stripBy, List.dropWhile_idempotent]
  · intro hn
    exact List.dropWhile_eq_nil_iff.2 (strip_eq_nil.1 hn)

/-- An opening brace alone on its line begins the block that is pending. -/
theorem readLine_openBrace {name gap : Text} (hn : strip name = []) (hg : strip gap = [])
    {reader : LineReader} {key : Text} (hp : reader.pending = some key) (hk : key ≠ []) :
    readLine reader (name ++ '{' :: gap) =
      { reader with stack := reader.stack ++ [key], pending := none } := by
  obtain ⟨name', h1, -, h2⟩ := strip_openBrace name hg
  rw [h2 hn, List.nil_append] at h1
  obtain ⟨c, cs, rfl⟩ := List.exists_cons_of_ne_nil hk
  rw [readLine]
  simp only [h1, hp, if_true, List.cons_ne_nil, if_false]

/-- A name with its opening brace begins a block. -/
theorem readLine_open_name {name gap : Text} (hn : strip name ≠ [])
    (hb : ['}'].isPrefixOf (strip name) = false) (hg : strip gap = []) (reader : LineReader) :
    readLine reader (name ++ '{' :: gap) =
      { reader with stack := reader.stack ++ [strip name], pending := none } := by
  obtain ⟨name', h1, h2, -⟩ := strip_openBrace name hg
  have hname' : name' ≠ [] := by
    rintro rfl
    exact hn (by rw [← h2]; rfl)
  have hpre : ['}'].isPrefixOf (name' ++ ['{']) = false := by
    obtain ⟨c, cs, rfl⟩ := List.exists_cons_of_ne_nil hname'
    have hc : c ≠ '}' := by
      rintro rfl
      obtain ⟨t, ht⟩ := strip_cons (c := '}') (by decide) cs
      rw [← h2, ht] at hb
      simp at hb
    simp [List.isPrefixOf, hc.symm]
  have hsuf : ['{'].isSuffixOf (name' ++ ['{']) = true :=
    List.isSuffixOf_iff_suffix.2 ⟨name', rfl⟩
  have hbrace : name' ++ ['{'] ≠ ['{'] := fun heq => hname' (List.append_left_eq_self.1 heq)
  have hne : name' ++ ['{'] ≠ [] := List.append_ne_nil_of_right_ne_nil _ (List.cons_ne_nil _ _)
  rw [readLine]
  simp only [h1, if_neg hne, if_neg hbrace, hpre, if_pos hsuf, List.dropLast_concat, h2, if_neg hn,
    Bool.false_eq_true, if_false]

end Verification
end OpenFoamAgent
