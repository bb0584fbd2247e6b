/-
# Dictionaries laid out in whole lines

The texts the line reader was written for: blocks whose name and opening brace
end a line and whose closing brace begins one, and between them groups of whole
lines that hold statements. `Layout` is such a text as a tree, `Layout.LaidOut`
what its parts must be for both readers to see the tree, and
`Layout.readLines` what the line reader makes of it: whatever it reports for an
entry path is the value of a statement of the tree at that path.
-/
import OpenFoamAgent.Verification.LineReader

namespace OpenFoamAgent
namespace Verification

open Python Contracts

/-! ### The tree -/

/-- A dictionary as lines: groups of lines that hold statements, and blocks. A block has
the lines of its head, the line that ends in the opening brace, its body, and the line that
begins with the closing brace. -/
inductive Layout where
  | done
  | statements (lines : List Text) (rest : Layout)
  | block (head : List Text) (name gap : Text) (body : Layout) (indent tail : Text) (rest : Layout)

namespace Layout

/-- The lines of the text, with their line breaks. -/
def lines : Layout → List Text
  | done => []
  | statements ls rest => ls ++ rest.lines
  | block head name gap body indent tail rest =>
    head ++ (name ++ '{' :: gap) :: (body.lines ++ (indent ++ '}' :: tail) :: rest.lines)

/-- The text. -/
def text (layout : Layout) : Text := layout.lines.flatten

/-- What stands before the opening brace of a block. -/
def headText (head : List Text) (name : Text) : Text := head.flatten ++ name

/-- The statements of the text, each below the names of the blocks around it. -/
def statementsAt : List Text → Layout → List (List Text × Text)
  | _, done => []
  | way, statements ls rest =>
    (readStatements [] ls.flatten).1.map (way, ·) ++ statementsAt way rest
  | way, block head name _ body _ _ rest =>
    statementsAt (way ++ [strip (headText head name)]) body ++ statementsAt way rest

end Layout

/-! ### What the structural reader needs -/

/-- The scan behind a text. -/
def quoteAfter (quote : QuoteScan) (t : Text) : QuoteScan := t.foldl QuoteScan.next quote

/-- The characters of a text that stand outside quotes. -/
def unquoted : QuoteScan → Text → Text
  | _, [] => []
  | .plain, c :: cs => c :: unquoted (QuoteScan.plain.next c) cs
  | quote, c :: cs => unquoted (quote.next c) cs

/-- The text closes its quotes and has no brace outside of them. -/
def Closed (t : Text) : Prop :=
  quoteAfter .plain t = .plain ∧ '{' ∉ unquoted .plain t ∧ '}' ∉ unquoted .plain t

instance (t : Text) : Decidable (Closed t) := inferInstanceAs (Decidable (_ ∧ _))

/-- The round and square brackets that are open behind a character. -/
def brackets (depth : ℕ × ℕ) (c : Char) : ℕ × ℕ :=
  (if c = '(' then depth.1 + 1 else if c = ')' then depth.1 - 1 else depth.1,
    if c = '[' then depth.2 + 1 else if c = ']' then depth.2 - 1 else depth.2)

/-- A statement: it closes its quotes and brackets and has no brace outside quotes. -/
def Whole (chunk : Text) : Prop :=
  Closed chunk ∧ (unquoted .plain chunk).foldl brackets (0, 0) = (0, 0)

instance (chunk : Text) : Decidable (Whole chunk) := inferInstanceAs (Decidable (_ ∧ _))

/-! ### What the line reader needs -/

/-- Each line but the last has a line break, and nothing follows a line break on its line. -/
def WholeLines : List Text → Prop
  | [] => True
  | l :: ls =>
    (l.dropWhile fun c => !isLineBreak c).all isLineBreak ∧ (ls ≠ [] → l.any isLineBreak) ∧
      WholeLines ls

instance WholeLines.decidable : ∀ ls, Decidable (WholeLines ls)
  | [] => inferInstanceAs (Decidable True)
  | _ :: ls => @instDecidableAnd _ _ _ (@instDecidableAnd _ _ _ (WholeLines.decidable ls))

/-- A value of `key` in the block at `way` would not be a value of the entry. -/
def Masked (entryPath : Text) (way : List Text) (key : Text) : Prop :=
  bareWord key → dotted (way ++ [key]) ≠ entryPath

instance (entryPath : Text) (way : List Text) (key : Text) : Decidable (Masked entryPath way key) :=
  inferInstanceAs (Decidable (_ → _))

/-- Lines of statements: none begins with a closing or ends with an opening brace, and what
follows a line that is a bare word does not read like a statement of the entry. The flag is
whether the last line that is not blank was a bare word. -/
def Readable (entryPath : Text) (way : List Text) : Bool → List Text → Prop
  | _, [] => True
  | afterBare, l :: ls =>
    if strip l = [] then Readable entryPath way afterBare ls
    else
      Plain l ∧
        (afterBare → bareWord (strip l) ∨ ∀ key ∈ (words l).head?, Masked entryPath way key) ∧
        Readable entryPath way (bareWord (strip l)) ls

instance Readable.decidable (entryPath : Text) (way : List Text) :
    ∀ afterBare ls, Decidable (Readable entryPath way afterBare ls)
  | _, [] => inferInstanceAs (Decidable True)
  | afterBare, l :: ls =>
    if h : strip l = [] then
      @decidable_of_iff _ (Readable entryPath way afterBare ls) (by rw [Readable, if_pos h])
        (Readable.decidable entryPath way afterBare ls)
    else
      @decidable_of_iff _ (Plain l ∧
          (afterBare → bareWord (strip l) ∨ ∀ key ∈ (words l).head?, Masked entryPath way key) ∧
          Readable entryPath way (bareWord (strip l)) ls) (by rw [Readable, if_neg h])
        (@instDecidableAnd _ _ _ (@instDecidableAnd _ _ _
          (Readable.decidable entryPath way (bareWord (strip l)) ls)))

/-- The head of a block: its name before the brace, or alone on a line above it. -/
def NamedOnce (head : List Text) (name : Text) : Prop :=
  let named := (head.map strip).filter (· ≠ [])
  (named = [] ∧ strip name ≠ [] ∧ ['}'].isPrefixOf (strip name) = false) ∨
    (strip name = [] ∧ ∃ key ∈ named.head?, bareWord key ∧ named = [key])

instance (head : List Text) (name : Text) : Decidable (NamedOnce head name) :=
  inferInstanceAs (Decidable (_ ∨ _))

/-- What the parts of a layout are for both readers to see them. -/
def Layout.LaidOut (entryPath : Text) : List Text → Layout → Prop
  | _, .done => True
  | way, .statements ls rest =>
    (∀ chunk ∈ (readStatements [] ls.flatten).1, Whole chunk) ∧
      strip (readStatements [] ls.flatten).2 = [] ∧ Readable entryPath way false ls ∧
      LaidOut entryPath way rest
  | way, .block head name gap body indent tail rest =>
    NamedOnce head name ∧ Closed (headText head name) ∧ ';' ∉ headText head name ∧
      (strip gap = [] ∧ strip indent = [] ∧ strip tail = []) ∧
      LaidOut entryPath (way ++ [strip (headText head name)]) body ∧ LaidOut entryPath way rest

instance Layout.LaidOut.decidable (entryPath : Text) :
    ∀ way layout, Decidable (Layout.LaidOut entryPath way layout)
  | _, .done => inferInstanceAs (Decidable True)
  | way, .statements _ rest =>
    @instDecidableAnd _ _ _ (@instDecidableAnd _ _ _ (@instDecidableAnd _ _ _
      (Layout.LaidOut.decidable entryPath way rest)))
  | way, .block head name _ body _ _ rest =>
    @instDecidableAnd _ _ _ (@instDecidableAnd _ _ _ (@instDecidableAnd _ _ _
      (@instDecidableAnd _ _ _ (@instDecidableAnd _ _
        (Layout.LaidOut.decidable entryPath (way ++ [strip (headText head name)]) body)
        (Layout.LaidOut.decidable entryPath way rest)))))

/-! ### Assignments of a line -/

/-- One of the statements assigns to the entry a value of the words of `value`. -/
def Assigns (entryPath : Text) (statements : List (List Text × Text)) (value : Text) : Prop :=
  ∃ wc ∈ statements, ∃ key value', assignment wc.2 = some (key, value') ∧
    dotted (wc.1 ++ [key]) = entryPath ∧ words value' = words value

theorem Assigns.mono {entryPath value : Text} {S S' : List (List Text × Text)}
    (hsub : ∀ wc ∈ S, wc ∈ S') (h : Assigns entryPath S value) : Assigns entryPath S' value := by
  obtain ⟨wc, hwc, hrest⟩ := h
  exact ⟨wc, hsub wc hwc, hrest⟩

/-- Whatever the entry holds behind a step it held before, or a statement assigns it. -/
def Keeps (entryPath : Text) (statements : List (List Text × Text))
    (entries entries' : Dict Text Text) : Prop :=
  ∀ value, entries'.get entryPath = some value →
    entries.get entryPath = some value ∨ Assigns entryPath statements value

theorem Keeps.refl {entryPath : Text} {S : List (List Text × Text)} (entries : Dict Text Text) :
    Keeps entryPath S entries entries := fun _ h => .inl h

theorem Keeps.trans {entryPath : Text} {S S' : List (List Text × Text)} {e e' e'' : Dict Text Text}
    (h : Keeps entryPath S e e') (h' : Keeps entryPath S' e' e'') :
    Keeps entryPath (S ++ S') e e'' := by
  intro value hv
  rcases h' value hv with hv | hv
  · exact (h value hv).imp_right (Assigns.mono fun _ => List.mem_append_left _)
  · exact .inr (hv.mono fun _ => List.mem_append_right _)

/-- A chunk that does not assign to the entry leaves it. -/
theorem get_assign_of_masked {entryPath q : Text} {way : List Text} (entries : Dict Text Text)
    (h : ∀ key value, assignment q = some (key, value) → dotted (way ++ [key]) ≠ entryPath) :
    (assign way entries q).get entryPath = entries.get entryPath := by
  unfold assign
  split
  · rename_i key value hq
    exact Dict.get_insert_of_ne _ _ (h key value hq).symm
  · rfl

theorem keeps_assign {entryPath q c : Text} {way : List Text} (hqc : words q = words c)
    (entries : Dict Text Text) :
    Keeps entryPath [(way, c)] entries (assign way entries q) := by
  intro value hv
  unfold assign at hv
  split at hv
  · rename_i key value' hq
    rw [Dict.get_insert] at hv
    split_ifs at hv with hpath
    · obtain rfl := Option.some.inj hv
      obtain ⟨value'', hc, hwords⟩ := assignment_congr hqc hq
      exact .inr ⟨(way, c), List.mem_cons_self, key, value'', hc, hpath.symm, hwords⟩
    · exact .inl hv
  · exact .inl hv

/-- The chunks of the line reader assign what the statements of the same words assign. -/
theorem keeps_foldl_assign {entryPath : Text} {way qs cs : List Text}
    (h : qs.map words = cs.map words) (entries : Dict Text Text) :
    Keeps entryPath (cs.map (way, ·)) entries (qs.foldl (assign way) entries) := by
  induction qs generalizing cs entries with
  | nil => exact Keeps.refl entries
  | cons q qs ih =>
    cases cs with
    | nil => cases h
    | cons c cs =>
      obtain ⟨hqc, hqs⟩ := List.cons.inj h
      exact (keeps_assign hqc entries).trans (ih hqs (assign way entries q))

/-! ### One line -/

/-- What the statement of the line reader has to do with the statement `x` of the text: it
has its words; or it was dropped at a bare word, and what followed does not assign to the
entry. -/
structure Follows (entryPath : Text) (way : List Text) (afterBare : Bool) (s x : Text) : Prop where
  semicolon : ';' ∉ s
  bare : afterBare = true → words s = [] ∧ words x ≠ []
  other : afterBare = false → words s = words x ∨
    (∃ key rest, words s = key :: rest ∧ Masked entryPath way key) ∧ words x ≠ []

theorem Follows.nil (entryPath : Text) (way : List Text) {s : Text} (hs : words s = []) :
    Follows entryPath way false s [] where
  semicolon := semicolon_notMem_spaces (strip_eq_nil.1 (words_eq_nil.1 hs))
  bare := nofun
  other _ := .inl (hs.trans words_nil.symm)

/-- A statement that is blank was followed to its end. -/
theorem Follows.words_eq_nil {entryPath : Text} {way : List Text} {afterBare : Bool} {s x : Text}
    (h : Follows entryPath way afterBare s x) (hx : words x = []) : words s = [] := by
  cases afterBare with
  | true => exact (h.bare rfl).1
  | false =>
    rcases h.other rfl with hw | ⟨-, hne⟩
    · rw [hw, hx]
    · exact absurd hx hne

theorem words_ne_nil {t : Text} (h : strip t ≠ []) : words t ≠ [] := fun hw => h (words_eq_nil.1 hw)

/-- A word with white space behind it stays a word of the longer text. -/
theorem words_append_head {a key : Text} {rest : List Text} (h : words a = key :: rest)
    (hrest : rest ≠ []) (y : Text) : key ∈ (words (a ++ y)).head? := by
  have hne : strip a ≠ [] := by
    intro hnil
    rw [words_eq_nil.2 hnil] at h
    cases h
  have hkey : key ≠ [] := by
    have hmem : key ∈ words a := h ▸ List.mem_cons_self
    simpa using (List.mem_filter.1 hmem).2
  rw [words_eq_cons hne] at h
  obtain ⟨hk, hv⟩ := List.cons.inj h
  obtain ⟨b, t, ha, hb, -⟩ := exists_spaces_strip a
  have hsplit : strip a = key ++ (strip a).dropWhile fun c => !isSpace c := by
    rw [← hk]
    exact (List.takeWhile_append_dropWhile).symm
  obtain ⟨c, cs, hd⟩ : ∃ c cs, ((strip a).dropWhile fun c => !isSpace c) = c :: cs := by
    refine List.exists_cons_of_ne_nil fun hnil => hrest ?_
    rw [← hv, splitValue, hnil]
    exact words_nil
  have hc : isSpace c := by
    simpa using head?_dropWhile (p := fun c => !isSpace c) (t := strip a) c (by rw [hd]; rfl)
  have hword : words (a ++ y) = key :: words (c :: (cs ++ t ++ y)) := by
    have hspace : ∀ d ∈ key, isSpace d = false := by
      intro d hmem
      rw [← hk] at hmem
      simpa using List.mem_takeWhile_imp hmem
    have hhead : ∀ d ∈ (c :: (cs ++ t ++ y)).head?, isSpace d := by
      rintro d ⟨⟩
      exact hc
    rw [← words_word_append hkey hspace hhead, ha, hsplit, hd, List.append_assoc, List.append_assoc,
      words_spaces_append hb]
    simp
  rw [hword]
  rfl

theorem follows_open {entryPath : Text} {way : List Text} {afterBare : Bool} {s x l : Text}
    (h : Follows entryPath way afterBare s x) (hx : Separated x) (hne : strip l ≠ [])
    (hs : ';' ∉ l) (hmask : afterBare → ∀ key ∈ (words l).head?, Masked entryPath way key) :
    Follows entryPath way false (strip (s ++ ' ' :: strip l)) (x ++ l) where
  semicolon := by
    rw [semicolon_mem_strip, List.mem_append, not_or, List.mem_cons, not_or, semicolon_mem_strip]
    exact ⟨h.semicolon, by decide, hs⟩
  bare := nofun
  other _ := by
    rw [words_strip, words_append_space (by decide), words_strip, hx]
    cases afterBare with
    | true =>
      obtain ⟨hnil, hxne⟩ := h.bare rfl
      obtain ⟨key, rest, hl⟩ := List.exists_cons_of_ne_nil (words_ne_nil hne)
      refine .inr ⟨⟨key, rest, by rw [hnil, hl]; rfl, hmask rfl key (by rw [hl]; rfl)⟩, ?_⟩
      exact List.append_ne_nil_of_left_ne_nil hxne _
    | false =>
      rcases h.other rfl with hw | ⟨⟨key, rest, hw, hkey⟩, hxne⟩
      · exact .inl (by rw [hw])
      · exact .inr ⟨⟨key, rest ++ words l, by rw [hw]; rfl, hkey⟩,
          List.append_ne_nil_of_left_ne_nil hxne _⟩

/-- What the line reader cuts off a dropped statement does not assign to the entry. -/
theorem follows_masked {entryPath : Text} {way : List Text} {s a b key value : Text} {q : Text}
    (hs : words s = [] ∧ (∀ key ∈ (words (a ++ b)).head?, Masked entryPath way key) ∨
      ∃ key rest, words s = key :: rest ∧ Masked entryPath way key)
    (hq : words q = words (s ++ ' ' :: a)) (hassign : assignment q = some (key, value)) :
    dotted (way ++ [key]) ≠ entryPath := by
  obtain ⟨hwords, hne, hkey⟩ := assignment_eq_some hassign
  rw [hq, words_append_space (by decide)] at hwords
  rcases hs with ⟨hnil, hmask⟩ | ⟨key', rest, hw, hmask⟩
  · rw [hnil, List.nil_append] at hwords
    exact hmask key (words_append_head hwords hne b) hkey
  · rw [hw] at hwords
    obtain ⟨rfl, -⟩ := List.cons.inj hwords
    exact hmask hkey

/-- The step lemma of the line reader on a line of statements. -/
theorem Follows.line {entryPath x l : Text} {afterBare : Bool} {reader : LineReader}
    (h : Follows entryPath reader.stack afterBare reader.statement x) (hx : Separated x)
    (hne : strip l ≠ []) (hp : Plain l)
    (hmask : afterBare → bareWord (strip l) ∨
      ∀ key ∈ (words l).head?, Masked entryPath reader.stack key) :
    (readLine reader l).stack = reader.stack ∧
      Follows entryPath reader.stack (bareWord (strip l)) (readLine reader l).statement
        (readStatements x l).2 ∧
      Keeps entryPath ((readStatements x l).1.map (reader.stack, ·)) reader.entries
        (readLine reader l).entries := by
  by_cases hbare : bareWord (strip l) = true
  · have hs : ';' ∉ l := fun hmem => bareWord_noSemicolon hbare (semicolon_mem_strip.2 hmem)
    rw [readLine_bareWord hp hbare, readStatements_of_notMem hs, hbare]
    refine ⟨rfl, ⟨List.not_mem_nil, fun _ => ⟨words_nil, ?_⟩, nofun⟩, Keeps.refl _⟩
    rw [hx]
    exact List.append_ne_nil_of_right_ne_nil _ (words_ne_nil hne)
  have hmask' : afterBare → ∀ key ∈ (words l).head?, Masked entryPath reader.stack key :=
    fun ha => (hmask ha).resolve_left hbare
  by_cases hs : ';' ∈ l
  · rw [readLine_statements hp hs, Bool.eq_false_of_not_eq_true hbare]
    by_cases hw : words reader.statement = words x
    · obtain ⟨hstatements, hrest⟩ := readStatements_line h.semicolon hw hx l
      refine ⟨rfl, ⟨?_, nofun, fun _ => .inl hrest⟩, keeps_foldl_assign hstatements _⟩
      exact (notMem_readStatements List.not_mem_nil _).1
    · -- the statement was dropped: only its end is cut off, and does not count
      obtain ⟨a, b, rfl, ha⟩ := List.eq_append_cons_of_mem hs
      have hdropped : words reader.statement = [] ∧
          (∀ key ∈ (words (a ++ ';' :: b)).head?, Masked entryPath reader.stack key) ∨
          ∃ key rest, words reader.statement = key :: rest ∧ Masked entryPath reader.stack key := by
        cases afterBare with
        | true => exact .inl ⟨(h.bare rfl).1, hmask' rfl⟩
        | false => exact .inr ((h.other rfl).resolve_left hw).1
      have hsep : words reader.statement = words (reader.statement ++ [' ']) :=
        (words_append_spaces (fun c hc => by rw [List.mem_singleton.1 hc]; rfl) _).symm
      obtain ⟨hstatements, hrest⟩ :=
        readStatements_line h.semicolon hsep (separated_concat (by decide) _) (a ++ ';' :: b)
      rw [readStatements_semicolon ha] at hstatements hrest
      obtain ⟨q, qs, hq⟩ : ∃ q qs, (readStatements []
          (strip (reader.statement ++ ' ' :: strip (a ++ ';' :: b)))).1 = q :: qs := by
        refine List.exists_cons_of_ne_nil fun hnil => ?_
        rw [hnil] at hstatements
        cases hstatements
      rw [hq] at hstatements
      obtain ⟨hqa, hqs⟩ := List.cons.inj hstatements
      rw [List.append_assoc, List.singleton_append] at hqa
      rw [readStatements_semicolon ha]
      refine ⟨rfl, ⟨?_, nofun, fun _ => .inl hrest⟩, ?_⟩
      · exact (notMem_readStatements List.not_mem_nil _).1
      · dsimp only
        rw [hq, List.foldl_cons]
        intro value hv
        have hfirst := get_assign_of_masked reader.entries fun key value hassign =>
          follows_masked hdropped hqa hassign
        rcases keeps_foldl_assign hqs _ value hv with hv | hv
        · exact .inl (hfirst ▸ hv)
        · exact .inr (hv.mono fun wc hwc => List.mem_cons_of_mem _ hwc)
  · rw [readLine_open hne hp hbare hs, readStatements_of_notMem hs, Bool.eq_false_of_not_eq_true hbare]
    exact ⟨rfl, follows_open h hx hne hs hmask', Keeps.refl _⟩

/-! ### Whole lines -/

theorem isSpace_of_isLineBreak {c : Char} (h : isLineBreak c) : isSpace c := by
  unfold isLineBreak at h
  unfold isSpace
  simp only [Bool.or_eq_true, Bool.and_eq_true, decide_eq_true_eq, beq_iff_eq] at h ⊢
  omega

theorem WholeLines.append_left {a b : List Text} (h : WholeLines (a ++ b)) : WholeLines a := by
  induction a with
  | nil => trivial
  | cons l ls ih =>
    obtain ⟨hl, hbreak, hrest⟩ := h
    exact ⟨hl, fun hne => hbreak (List.append_ne_nil_of_left_ne_nil hne b), ih hrest⟩

theorem WholeLines.append_right {a b : List Text} (h : WholeLines (a ++ b)) : WholeLines b := by
  induction a with
  | nil => exact h
  | cons l ls ih => exact ih h.2.2

/-- A line with more lines behind it ends in white space. -/
theorem WholeLines.ends {l : Text} {ls : List Text} (h : WholeLines (l :: ls)) (hne : ls ≠ []) :
    ∃ l' c, l = l' ++ [c] ∧ isSpace c := by
  obtain ⟨hall, hbreak, -⟩ := h
  obtain ⟨c, hc, hcb⟩ := List.any_eq_true.1 (hbreak hne)
  have hdrop : (l.dropWhile fun c => !isLineBreak c) ≠ [] := by
    intro hnil
    have := List.dropWhile_eq_nil_iff.1 hnil c hc
    simp [hcb] at this
  refine ⟨l.dropLast, l.getLast (List.ne_nil_of_mem hc), (List.dropLast_append_getLast _).symm, ?_⟩
  have hlast : (l.dropWhile fun c => !isLineBreak c).getLast hdrop = l.getLast (List.ne_nil_of_mem hc) :=
    (List.dropWhile_suffix _).getLast hdrop
  rw [← hlast]
  exact isSpace_of_isLineBreak (List.all_eq_true.1 hall _ (List.getLast_mem hdrop))

theorem separated_readStatements {x l : Text} {ls : List Text} (h : WholeLines (l :: ls))
    (hne : ls ≠ []) : Separated (readStatements x l).2 := by
  obtain ⟨l', c, rfl, hc⟩ := h.ends hne
  rw [readStatements_append, readStatements_of_notMem (a := [c])]
  · exact separated_concat hc _
  · exact semicolon_notMem_spaces fun d hd => List.mem_singleton.1 hd ▸ hc

/-- A line break ends a line for the reader. -/
theorem foldl_splitlinesFrom_break {c : Char} (hc : isLineBreak c) (line t : Text)
    (reader : LineReader) :
    (splitlinesFrom line (c :: t)).foldl readLine reader =
      (splitlinesFrom [] t).foldl readLine (readLine reader line) := by
  rw [splitlinesFrom.eq_def line (c :: t)]
  split
  · rename_i heq
    cases heq
  · rename_i cs heq
    obtain ⟨rfl, rfl⟩ := List.cons.inj heq
    have hnewline : splitlinesFrom [] ('\n' :: cs) = [] :: splitlinesFrom [] cs := by
      rw [splitlinesFrom, if_pos (by decide)]
      simp
    rw [hnewline, List.foldl_cons, List.foldl_cons, readLine_blank (l := []) rfl]
  · rename_i c' cs _ heq
    obtain ⟨rfl, rfl⟩ := List.cons.inj heq
    rw [if_pos hc, List.foldl_cons]

theorem splitlinesFrom_append {content : Text} (h : ∀ c ∈ content, isLineBreak c = false)
    (line t : Text) : splitlinesFrom line (content ++ t) = splitlinesFrom (line ++ content) t := by
  induction content generalizing line with
  | nil => rw [List.append_nil]; rfl
  | cons c cs ih =>
    have hc := h c List.mem_cons_self
    rw [List.cons_append, splitlinesFrom]
    · rw [if_neg (by simp [hc]), ih fun d hd => h d (List.mem_cons_of_mem _ hd), List.append_assoc]
      rfl
    · rintro cs' rfl
      cases hc

theorem foldl_splitlinesFrom_breaks {breaks : Text} (h : ∀ c ∈ breaks, isLineBreak c) (t : Text)
    (reader : LineReader) :
    (splitlinesFrom [] (breaks ++ t)).foldl readLine reader =
      (splitlinesFrom [] t).foldl readLine reader := by
  induction breaks with
  | nil => rfl
  | cons c cs ih =>
    rw [List.cons_append, foldl_splitlinesFrom_break (h c List.mem_cons_self), readLine_blank rfl]
    exact ih fun d hd => h d (List.mem_cons_of_mem _ hd)

/-- The reader reads a text of whole lines line by line. -/
theorem foldl_splitlines {ls : List Text} (h : WholeLines ls) (reader : LineReader) :
    (splitlines ls.flatten).foldl readLine reader = ls.foldl readLine reader := by
  induction ls generalizing reader with
  | nil => rfl
  | cons l ls ih =>
    obtain ⟨hall, hbreak, hls⟩ := h
    rw [List.all_eq_true] at hall
    rw [List.foldl_cons, List.flatten_cons, ← ih hls]
    have hsplit : l = (l.takeWhile fun c => !isLineBreak c) ++ l.dropWhile fun c => !isLineBreak c :=
      (List.takeWhile_append_dropWhile).symm
    have hcontent : ∀ c ∈ l.takeWhile fun c => !isLineBreak c, isLineBreak c = false :=
      fun c hc => by simpa using List.mem_takeWhile_imp hc
    generalize (l.takeWhile fun c => !isLineBreak c) = content at hsplit hcontent
    generalize (l.dropWhile fun c => !isLineBreak c) = breaks at hsplit hall
    subst hsplit
    have hline : readLine reader (content ++ breaks) = readLine reader content := by
      refine readLine_congr ?_ reader
      exact strip_padded (b := []) rfl
        (strip_eq_nil.2 fun c hc => isSpace_of_isLineBreak (hall c hc)) content
    rw [hline, splitlines, List.append_assoc, splitlinesFrom_append hcontent, List.nil_append]
    cases breaks with
    | nil =>
      -- the last line, without a line break
      have hnil : ls = [] := by
        by_contra hne
        obtain ⟨c, hc, hcb⟩ := List.any_eq_true.1 (hbreak hne)
        rw [List.append_nil] at hc
        rw [hcontent c hc] at hcb
        cases hcb
      subst hnil
      rw [List.flatten_nil, List.append_nil, splitlinesFrom]
      split_ifs with hempty
      · rw [hempty, readLine_blank rfl]
        rfl
      · rfl
    | cons c cs =>
      rw [List.cons_append, foldl_splitlinesFrom_break (hall c List.mem_cons_self),
        foldl_splitlinesFrom_breaks fun d hd => hall d (List.mem_cons_of_mem _ hd)]
      rfl

/-! ### Groups of lines and heads of blocks -/

/-- The run lemma of the line reader on a group of lines of statements. -/
theorem Follows.group {entryPath x : Text} {afterBare : Bool} {ls : List Text}
    {reader : LineReader}
    (h : Follows entryPath reader.stack afterBare reader.statement x) (hx : ls ≠ [] → Separated x)
    (hwhole : WholeLines ls) (hread : Readable entryPath reader.stack afterBare ls) :
    (ls.foldl readLine reader).stack = reader.stack ∧
      (∃ afterBare', Follows entryPath reader.stack afterBare' (ls.foldl readLine reader).statement
        (readStatements x ls.flatten).2) ∧
      Keeps entryPath ((readStatements x ls.flatten).1.map (reader.stack, ·)) reader.entries
        (ls.foldl readLine reader).entries := by
  induction ls generalizing afterBare x reader with
  | nil => exact ⟨rfl, ⟨afterBare, h⟩, Keeps.refl _⟩
  | cons l ls ih =>
    have hsep := hx (List.cons_ne_nil _ _)
    have hsep' : ls ≠ [] → Separated (readStatements x l).2 := separated_readStatements hwhole
    rw [Readable] at hread
    rw [List.foldl_cons, List.flatten_cons, readStatements_append]
    split_ifs at hread with hblank
    · have hspaces := strip_eq_nil.1 hblank
      rw [readStatements_of_notMem (semicolon_notMem_spaces hspaces)] at hsep' ⊢
      rw [readLine_blank hblank]
      have hwords : words (x ++ l) = words x := words_append_spaces hspaces x
      refine ih ⟨h.semicolon, ?_, ?_⟩ hsep' hwhole.2.2 hread
      · rw [hwords]
        exact h.bare
      · rw [hwords]
        exact h.other
    · obtain ⟨hplain, hmask, hrest⟩ := hread
      obtain ⟨hstack, hfollows, hkeeps⟩ := h.line hsep hblank hplain hmask
      rw [← hstack] at hfollows hrest
      obtain ⟨hstack', hfollows', hkeeps'⟩ := ih hfollows hsep' hwhole.2.2 hrest
      rw [hstack] at hstack' hfollows' hkeeps'
      refine ⟨hstack', hfollows', ?_⟩
      rw [List.map_append]
      exact hkeeps.trans hkeeps'

theorem foldl_readLine_blank {ls : List Text} (h : (ls.map strip).filter (· ≠ []) = [])
    (reader : LineReader) : ls.foldl readLine reader = reader := by
  induction ls with
  | nil => rfl
  | cons l ls ih =>
    rw [List.map_cons, List.filter_cons] at h
    split_ifs at h with hl
    rw [List.foldl_cons, readLine_blank (by simpa using hl)]
    exact ih h

/-- Lines of which one is a bare word and the others are blank leave the word pending. -/
theorem foldl_readLine_bareWord {ls : List Text} {key : Text}
    (h : (ls.map strip).filter (· ≠ []) = [key]) (hkey : bareWord key) (reader : LineReader) :
    ls.foldl readLine reader = { reader with pending := some key, statement := [] } := by
  induction ls with
  | nil => cases h
  | cons l ls ih =>
    rw [List.map_cons, List.filter_cons] at h
    rw [List.foldl_cons]
    split_ifs at h with hl
    · obtain ⟨rfl, hrest⟩ := List.cons.inj h
      rw [readLine_bareWord (bareWord_plain hkey) hkey, foldl_readLine_blank hrest]
    · rw [readLine_blank (by simpa using hl)]
      exact ih h

theorem strip_flatten_blank {ls : List Text} (h : (ls.map strip).filter (· ≠ []) = []) :
    strip ls.flatten = [] := by
  rw [strip_eq_nil]
  intro c hc
  obtain ⟨l, hl, hcl⟩ := List.mem_flatten.1 hc
  have hblank := List.filter_eq_nil_iff.1 h (strip l) (List.mem_map_of_mem hl)
  exact strip_eq_nil.1 (by simpa using hblank) c hcl

theorem strip_flatten_singleton {ls : List Text} {key : Text}
    (h : (ls.map strip).filter (· ≠ []) = [key]) : strip ls.flatten = key := by
  induction ls with
  | nil => cases h
  | cons l ls ih =>
    rw [List.map_cons, List.filter_cons] at h
    rw [List.flatten_cons]
    split_ifs at h with hl
    · obtain ⟨rfl, hrest⟩ := List.cons.inj h
      exact strip_padded (b := []) rfl (strip_flatten_blank hrest) l
    · have hpad := strip_padded (b := l) (by simpa using hl) (a := []) rfl ls.flatten
      rw [List.append_nil] at hpad
      rw [hpad, ih h]

/-- Behind the head of a block the reader stands in the block. -/
theorem NamedOnce.lines {head : List Text} {name gap : Text} (h : NamedOnce head name)
    (hg : strip gap = []) {reader : LineReader} (hs : words reader.statement = []) :
    ((head ++ [name ++ '{' :: gap]).foldl readLine reader).stack =
        reader.stack ++ [strip (Layout.headText head name)] ∧
      words ((head ++ [name ++ '{' :: gap]).foldl readLine reader).statement = [] ∧
      ((head ++ [name ++ '{' :: gap]).foldl readLine reader).entries = reader.entries := by
  rw [List.foldl_append, Layout.headText]
  rcases h with ⟨hblank, hname, hbrace⟩ | ⟨hname, key, -, hkey, hnamed⟩
  · rw [foldl_readLine_blank hblank, List.foldl_cons, readLine_open_name hname hbrace hg]
    have hpad := strip_padded (strip_flatten_blank hblank) (a := []) rfl name
    rw [List.append_nil] at hpad
    rw [hpad]
    exact ⟨rfl, hs, rfl⟩
  · have hne : key ≠ [] := by
      rintro rfl
      cases hkey
    rw [foldl_readLine_bareWord hnamed hkey, List.foldl_cons, readLine_openBrace hname hg rfl hne]
    have hpad := strip_padded (b := []) rfl hname head.flatten
    rw [List.nil_append] at hpad
    rw [hpad, strip_flatten_singleton hnamed]
    exact ⟨rfl, words_nil, rfl⟩

/-! ### The whole text -/

/-- What the line reader makes of a text that is laid out: the entry holds what it held, or
the value of one of the statements. -/
theorem Layout.readLines {entryPath : Text} (layout : Layout) (reader : LineReader)
    (hlaid : layout.LaidOut entryPath reader.stack) (hwhole : WholeLines layout.lines)
    (hs : words reader.statement = []) :
    (layout.lines.foldl readLine reader).stack = reader.stack ∧
      words (layout.lines.foldl readLine reader).statement = [] ∧
      Keeps entryPath (layout.statementsAt reader.stack) reader.entries
        (layout.lines.foldl readLine reader).entries := by
  induction layout generalizing reader with
  | done => exact ⟨rfl, hs, Keeps.refl _⟩
  | statements ls rest ih =>
    obtain ⟨-, hblank, hread, hrest⟩ := hlaid
    rw [Layout.lines, List.foldl_append]
    rw [Layout.lines] at hwhole
    obtain ⟨hstack, ⟨_, hfollows⟩, hkeeps⟩ := (Follows.nil entryPath reader.stack hs).group
      (fun _ => separated_nil) hwhole.append_left hread
    have hidle := hfollows.words_eq_nil (words_eq_nil.2 hblank)
    rw [← hstack] at hrest
    obtain ⟨hstack', hidle', hkeeps'⟩ := ih _ hrest hwhole.append_right hidle
    rw [hstack] at hstack' hkeeps'
    exact ⟨hstack', hidle', hkeeps.trans hkeeps'⟩
  | block head name gap body indent tail rest ihbody ihrest =>
    obtain ⟨hnamed, -, -, ⟨hgap, hindent, -⟩, hbody, hrest⟩ := hlaid
    rw [Layout.lines] at hwhole
    have hlines : (Layout.block head name gap body indent tail rest).lines =
        (head ++ [name ++ '{' :: gap]) ++ (body.lines ++ (indent ++ '}' :: tail) :: rest.lines) := by
      simp [Layout.lines]
    rw [hlines, List.foldl_append, List.foldl_append, List.foldl_cons]
    obtain ⟨hstack, hidle, hentries⟩ := hnamed.lines hgap hs
    generalize (head ++ [name ++ '{' :: gap]).foldl readLine reader = inside at hstack hidle hentries
    rw [← hstack] at hbody
    obtain ⟨hstack', -, hkeeps⟩ := ihbody _ hbody hwhole.append_right.2.2.append_left hidle
    generalize body.lines.foldl readLine inside = atEnd at hstack' hkeeps
    rw [readLine_close hindent]
    have hpop : atEnd.stack.dropLast = reader.stack := by
      rw [hstack', hstack, List.dropLast_concat]
    rw [hpop]
    obtain ⟨hstack'', hidle'', hkeeps'⟩ := ihrest
      { atEnd with stack := reader.stack, pending := none, statement := [] } hrest
      hwhole.append_right.2.2.append_right.2.2 words_nil
    refine ⟨hstack'', hidle'', ?_⟩
    rw [← hentries, Layout.statementsAt, ← hstack]
    exact hkeeps.trans hkeeps'

end Verification
end OpenFoamAgent
