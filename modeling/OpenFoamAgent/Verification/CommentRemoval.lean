/-
# The two removals of comments

`_contains_semantic_snippet` of `verification/safety.py` looks for a snippet in
what two regular expressions leave of a file, and the dictionary parsers read what
`strip_comments` leaves of it. The expressions do not know strings, and the
first of them does not know line comments.

`Undisputed` walks the text as `strip_comments` does and says of each string
and each comment that the expressions treat it alike. On such a text both
removals leave the same words (`containsSemanticSnippet_iff`); on
`evidence_from_comment` a statement that is commented out counts as evidence.
-/
import OpenFoamAgent.Verification.FoamSemantics
import OpenFoamAgent.Verification.LineReader

namespace OpenFoamAgent
namespace Verification

open Python Engineering

/-! ### Snippets -/

/-- `" ".join(t.split())`. -/
def normalizedSpace (t : Text) : Text := List.intercalate [' '] (words t)

/-- `_contains_semantic_snippet`. -/
def containsSemanticSnippet (content snippet : Text) : Bool :=
  let normalizedContent := normalizedSpace (activeFoamContent content)
  let normalizedSnippet := normalizedSpace snippet
  !normalizedSnippet.isEmpty && contains normalizedSnippet normalizedContent

/-! ### Where the removals agree -/

/-- Every match of `_BLOCK_COMMENT` that starts in a text, with `rest` behind it, ends in the text.
`skip` characters belong to the last match. -/
def matchesInside (rest : Text) : ℕ → Text → Bool
  | _, [] => true
  | skip + 1, _ :: cs => matchesInside rest skip cs
  | 0, c :: cs =>
    if c = '/' ∧ cs.head? = some '*' then
      match blockCommentLength (cs.drop 1) with
      | some n => matchesInside rest (n + 1) cs
      | none => (blockCommentLength (cs.drop 1 ++ rest)).isNone && matchesInside rest 0 cs
    else matchesInside rest 0 cs

/-- A text whose comments and strings, as `strip_comments` finds them, mean the same to the two
expressions; `blank` says that white space or nothing stands in front of it. -/
inductive Undisputed : Bool → Text → Prop
  | nil {blank} : Undisputed blank []
  | code {blank c cs} (hquote : c ≠ '"' ∧ c ≠ '\'')
      (hmark : c = '/' → ∀ d ∈ cs.head?, d ≠ '/' ∧ d ≠ '*') (hrest : Undisputed (isSpace c) cs) :
      Undisputed blank (c :: cs)
  /-- No mark of a comment stands in a string. -/
  | quoted {blank q cs body rest} (hquote : q = '"' ∨ q = '\'')
      (hbody : quotedKey q cs = some (body, rest))
      (hkept : activeFoamContent (q :: body ++ [q]) = q :: body ++ [q])
      (hinside : matchesInside rest 0 (q :: body ++ [q])) (hrest : Undisputed false rest) :
      Undisputed blank (q :: cs)
  | unclosed {blank q cs} (hquote : q = '"' ∨ q = '\'') (hbody : quotedKey q cs = none)
      (hkept : activeFoamContent (q :: cs) = q :: cs) : Undisputed blank (q :: cs)
  /-- A line comment starts no block comment that leaves it, and only white space stays of it. -/
  | line {blank : Bool} {body rest} (hbody : '\n' ∉ body) (hnewline : ∀ c ∈ rest.head?, c = '\n')
      (hinside : matchesInside rest 0 ('/' :: '/' :: body))
      (hremoved : ∀ c ∈ activeFoamContent ('/' :: '/' :: body), isSpace c)
      (hrest : Undisputed blank rest) : Undisputed blank ('/' :: '/' :: body ++ rest)
  /-- A block comment is closed, and stands next to white space when it goes over lines. -/
  | block {blank : Bool} {cs n} (hclosed : blockCommentLength cs = some n)
      (hlines : '\n' ∈ cs.take n → blank = true ∨ ∀ c ∈ (stripComments (cs.drop n)).head?, isSpace c)
      (hrest : Undisputed blank (cs.drop n)) : Undisputed blank ('/' :: '*' :: cs)

/-! ### The two expressions, piece by piece -/

/-- The block comments of a text in front of another one. -/
theorem dropBlockComments_append {rest : Text} {skip : ℕ} {t : Text}
    (hinside : matchesInside rest skip t = true) (hskip : skip ≤ t.length)
    (hend : t.getLast? = some '/' → rest.head? ≠ some '*') :
    dropBlockComments skip (t ++ rest) = dropBlockComments skip t ++ dropBlockComments 0 rest := by
  induction t generalizing skip with
  | nil =>
    obtain rfl := Nat.le_zero.1 hskip
    rw [List.nil_append, dropBlockComments, List.nil_append]
  | cons c cs ih =>
    have hend' : cs.getLast? = some '/' → rest.head? ≠ some '*' := fun h =>
      hend (by rw [List.getLast?_cons, h]; rfl)
    cases skip with
    | succ skip =>
      rw [List.cons_append, dropBlockComments, dropBlockComments]
      exact ih hinside (Nat.le_of_succ_le_succ hskip) hend'
    | zero =>
      rw [matchesInside] at hinside
      rw [List.cons_append, dropBlockComments, dropBlockComments]
      by_cases hmark : c = '/' ∧ cs.head? = some '*'
      · obtain ⟨d, ds, rfl⟩ : ∃ d ds, cs = d :: ds := by
          cases cs with
          | nil => cases hmark.2
          | cons d ds => exact ⟨d, ds, rfl⟩
        have hmark' : c = '/' ∧ (d :: ds ++ rest).head? = some '*' := hmark
        rw [if_pos hmark] at hinside
        rw [if_pos hmark, if_pos hmark']
        simp only [List.drop_succ_cons, List.drop_zero, List.cons_append] at hinside ⊢
        cases hlength : blockCommentLength ds with
        | some n =>
          rw [hlength] at hinside
          rw [blockCommentLength_append hlength]
          exact ih hinside (Nat.succ_le_succ (blockCommentLength_le hlength)) hend'
        | none =>
          rw [hlength, Bool.and_eq_true, Option.isNone_iff_eq_none] at hinside
          rw [hinside.1]
          exact congrArg (c :: ·) (ih hinside.2 (Nat.zero_le _) hend')
      · have hmark' : ¬(c = '/' ∧ (cs ++ rest).head? = some '*') := by
          cases cs with
          | nil => exact fun h => hend (by rw [h.1]; rfl) h.2
          | cons d ds => exact hmark
        rw [if_neg hmark] at hinside
        rw [if_neg hmark, if_neg hmark']
        exact congrArg (c :: ·) (ih hinside (Nat.zero_le _) hend')

/-! ### `strip_comments`, piece by piece -/

theorem stripFrom_quoted {q : Char} {cs body rest : Text} (h : quotedKey q cs = some (body, rest)) :
    cs = body ++ q :: rest ∧
      stripFrom (.quoted q) cs = body ++ q :: stripFrom .code rest := by
  fun_induction quotedKey q cs generalizing body with
  | case1 => cases h
  | case2 c cs ih =>
    obtain ⟨⟨body', rest'⟩, hbody, hr⟩ := Option.map_eq_some_iff.1 h
    obtain ⟨rfl, rfl⟩ := Prod.mk.inj hr
    obtain ⟨hcs, hstrip⟩ := ih hbody
    rw [stripFrom, hstrip]
    exact ⟨congrArg (fun t => '\\' :: c :: t) hcs, rfl⟩
  | case3 cs hescape =>
    cases h
    rw [stripFrom, if_pos rfl]
    · exact ⟨rfl, rfl⟩
    · exact hescape
  | case4 c cs hescape hquote ih =>
    obtain ⟨⟨body', rest'⟩, hbody, hr⟩ := Option.map_eq_some_iff.1 h
    obtain ⟨rfl, rfl⟩ := Prod.mk.inj hr
    obtain ⟨hcs, hstrip⟩ := ih hbody
    rw [stripFrom, if_neg hquote, hstrip]
    · exact ⟨congrArg (c :: ·) hcs, rfl⟩
    · exact hescape

theorem stripFrom_unclosed {q : Char} {cs : Text} (h : quotedKey q cs = none) :
    stripFrom (.quoted q) cs = cs := by
  fun_induction quotedKey q cs with
  | case1 => rfl
  | case2 c cs ih => rw [stripFrom, ih (Option.map_eq_none_iff.1 h)]
  | case3 => cases h
  | case4 c cs hescape hquote ih =>
    rw [stripFrom, if_neg hquote, ih (Option.map_eq_none_iff.1 h)]
    exact hescape

/-- The newlines of a block comment stay. -/
theorem stripFrom_block {cs : Text} {n : ℕ} (h : blockCommentLength cs = some n) :
    stripFrom .block cs = (cs.take n).filter (· = '\n') ++ stripFrom .code (cs.drop n) := by
  fun_induction blockCommentLength cs generalizing n with
  | case1 cs =>
    cases h
    rfl
  | case2 c cs hclose ih =>
    obtain ⟨m, hm, rfl⟩ := Option.map_eq_some_iff.1 h
    have hne : cs ≠ [] := by
      rintro rfl
      cases hm
    rw [stripFrom, ih hm, List.take_succ_cons, List.drop_succ_cons, List.filter_cons]
    · by_cases hc : c = '\n' <;> simp [hc]
    · exact fun cs' hc hcs => hclose cs' hc hcs
    · exact hne
  | case3 => cases h

/-! ### The words that stay -/

/-- Two texts hold the same words behind every text; when `blank`, behind every text that ends in
white space. -/
def SameWords (blank : Bool) (a s : Text) : Prop :=
  ∀ front : Text, (blank = true → ∀ c ∈ front.getLast?, isSpace c) → words (front ++ a) = words (front ++ s)

theorem SameWords.append {blank blank' : Bool} {a s : Text} (h : SameWords blank a s) (t : Text)
    (hblank : blank = true → ∀ c ∈ t.getLast?, isSpace c) (hne : t ≠ []) :
    SameWords blank' (t ++ a) (t ++ s) := by
  intro front _
  rw [← List.append_assoc, ← List.append_assoc]
  refine h (front ++ t) fun hb c hc => hblank hb c ?_
  rwa [List.getLast?_append_of_ne_nil _ hne] at hc

/-- White space next to white space, or at an end, changes no word. -/
theorem words_append_blanks {front gap rest : Text} (hgap : ∀ c ∈ gap, isSpace c)
    (h : (∀ c ∈ front.getLast?, isSpace c) ∨ ∀ c ∈ rest.head?, isSpace c) :
    words (front ++ (gap ++ rest)) = words (front ++ rest) := by
  rcases h with h | h
  · rcases List.eq_nil_or_concat front with rfl | ⟨front, c, rfl⟩
    · exact words_spaces_append hgap rest
    · have hc : isSpace c := h c (by rw [List.concat_eq_append, List.getLast?_concat]; rfl)
      simp only [List.concat_eq_append, List.append_assoc, List.singleton_append]
      rw [words_append_space hc, words_append_space hc, words_spaces_append hgap]
  · cases rest with
    | nil => rw [List.append_nil, List.append_nil, words_append_spaces hgap]
    | cons c cs =>
      have hc : isSpace c := h c rfl
      rw [← List.append_assoc, words_append_space hc, words_append_space hc,
        words_append_spaces hgap]

theorem activeFoamContent_code {c : Char} {cs : Text}
    (hmark : c = '/' → ∀ d ∈ cs.head?, d ≠ '/' ∧ d ≠ '*') :
    activeFoamContent (c :: cs) = c :: activeFoamContent cs := by
  have hblock : ¬(c = '/' ∧ cs.head? = some '*') := fun h => (hmark h.1 '*' h.2).2 rfl
  have hline : ¬(c = '/' ∧ (dropBlockComments 0 cs).head? = some '/') := by
    rintro ⟨rfl, hhead⟩
    cases cs with
    | nil => cases hhead
    | cons d ds =>
      -- `d` opens no block comment, so it is the next character
      have hd := (hmark rfl d rfl).1
      rw [dropBlockComments, if_neg (fun h => hd h.1)] at hhead
      exact hd (Option.some.inj hhead)
  unfold activeFoamContent
  rw [dropBlockComments, if_neg hblock]
  dsimp only
  rw [dropLineComments, if_neg hline]

theorem activeFoamContent_quoted {q : Char} {body rest : Text} (hquote : q = '"' ∨ q = '\'')
    (hkept : activeFoamContent (q :: body ++ [q]) = q :: body ++ [q])
    (hinside : matchesInside rest 0 (q :: body ++ [q]) = true) :
    activeFoamContent (q :: body ++ [q] ++ rest) = q :: body ++ [q] ++ activeFoamContent rest := by
  have hq : some q ≠ some '/' := by
    rcases hquote with rfl | rfl <;> decide
  have hlast : (q :: body ++ [q]).getLast? ≠ some '/' := by
    rwa [List.getLast?_concat]
  obtain ⟨hblock, hline⟩ := kept_of_activeFoamContent hkept
  unfold activeFoamContent
  rw [dropBlockComments_append hinside (Nat.zero_le _) fun h => absurd h hlast, hblock,
    dropLineComments_kept hline hlast]

theorem activeFoamContent_line {body rest : Text} (hnewline : ∀ c ∈ rest.head?, c = '\n')
    (hinside : matchesInside rest 0 ('/' :: '/' :: body) = true) :
    activeFoamContent ('/' :: '/' :: body ++ rest) =
      activeFoamContent ('/' :: '/' :: body) ++ activeFoamContent rest := by
  unfold activeFoamContent
  rw [dropBlockComments_append hinside (Nat.zero_le _)]
  · refine dropLineComments_append (fun c hc => ?_) _ _
    cases rest with
    | nil => cases hc
    | cons d ds =>
      obtain rfl := hnewline d rfl
      rw [dropBlockComments, if_neg (fun h => absurd h.1 (by decide))] at hc
      exact (Option.some.inj hc).symm
  · intro _ hhead
    exact absurd (hnewline '*' hhead) (by decide)

theorem dropBlockComments_skip (n : ℕ) (t : Text) :
    dropBlockComments n t = dropBlockComments 0 (t.drop n) := by
  induction n generalizing t with
  | zero => rfl
  | succ n ih =>
    cases t with
    | nil => rfl
    | cons c cs => exact ih cs

theorem activeFoamContent_block {cs : Text} {n : ℕ} (hclosed : blockCommentLength cs = some n) :
    activeFoamContent ('/' :: '*' :: cs) = activeFoamContent (cs.drop n) := by
  unfold activeFoamContent
  rw [dropBlockComments, if_pos ⟨rfl, rfl⟩, List.drop_succ_cons, List.drop_zero, hclosed]
  dsimp only
  rw [dropBlockComments, dropBlockComments_skip]

/-- White space stays in front of what `strip_comments` keeps, up to the words. -/
theorem head_active_of_newline {rest : Text} (hnewline : ∀ c ∈ rest.head?, c = '\n') :
    ∀ c ∈ (activeFoamContent rest).head?, isSpace c := by
  cases rest with
  | nil => exact nofun
  | cons d ds =>
    obtain rfl := hnewline d rfl
    rw [activeFoamContent_code fun h => absurd h (by decide)]
    rintro c hc
    obtain rfl := Option.some.inj hc
    decide

/-- On an undisputed text both removals leave the same words. -/
theorem Undisputed.sameWords {blank : Bool} {t : Text} (h : Undisputed blank t) :
    SameWords blank (activeFoamContent t) (stripComments t) := by
  unfold stripComments
  induction h with
  | nil => exact fun _ _ => rfl
  | @code blank c cs hquote hmark _ ih =>
    rw [activeFoamContent_code hmark, stripFrom_code hquote hmark]
    refine ih.append [c] (fun hc d hd => ?_) (by simp)
    obtain rfl := Option.some.inj hd
    exact hc
  | @quoted blank q cs body rest hquote hbody hkept hinside _ ih =>
    obtain ⟨hcs, hstrip⟩ := stripFrom_quoted hbody
    have htext : q :: cs = q :: body ++ [q] ++ rest := by
      rw [hcs]
      simp
    rw [stripFrom_quote hquote, hstrip, htext, activeFoamContent_quoted hquote hkept hinside]
    have hsame := @ih.append false blank _ _ (q :: body ++ [q]) nofun (by simp)
    simpa using hsame
  | @unclosed blank q cs hquote hbody hkept =>
    rw [stripFrom_quote hquote, stripFrom_unclosed hbody, hkept]
    exact fun _ _ => rfl
  | @line blank body rest hbody hnewline hinside hremoved _ ih =>
    intro front hfront
    have hstrip : stripFrom .code ('/' :: '/' :: body ++ rest) = stripFrom .code rest :=
      stripFrom_line hbody hnewline
    rw [activeFoamContent_line hnewline hinside, hstrip,
      words_append_blanks hremoved (.inr (head_active_of_newline hnewline))]
    exact ih front hfront
  | @block blank cs n hclosed hlines _ ih =>
    intro front hfront
    have hstrip : stripFrom .code ('/' :: '*' :: cs) =
        (cs.take n).filter (· = '\n') ++ stripFrom .code (cs.drop n) := stripFrom_block hclosed
    rw [activeFoamContent_block hclosed, hstrip, ih front hfront]
    by_cases hnewline : '\n' ∈ cs.take n
    · rw [words_append_blanks]
      · intro c hc
        obtain rfl : c = '\n' := by simpa using (List.mem_filter.1 hc).2
        decide
      · exact (hlines hnewline).imp (fun hb => hfront hb) id
    · rw [List.filter_eq_nil_iff.2 fun c hc => by
        simpa using fun h : c = '\n' => hnewline (h ▸ hc), List.nil_append]

/-- **Evidence is looked for in the text that the parsers read**, where the text is undisputed. -/
theorem containsSemanticSnippet_iff {content : Text} (h : Undisputed true content)
    (snippet : Text) :
    containsSemanticSnippet content snippet = true ↔
      normalizedSpace snippet ≠ [] ∧
        contains (normalizedSpace snippet) (normalizedSpace (stripComments content)) = true := by
  have hwords := h.sameWords [] fun _ => nofun
  have hsame : normalizedSpace (activeFoamContent content) =
      normalizedSpace (stripComments content) := congrArg (List.intercalate [' ']) hwords
  simp [containsSemanticSnippet, hsame]

/-- A block comment over two lines, a string and a line comment are undisputed. -/
theorem containsSemanticSnippet_undisputed :
    Undisputed true "/*\n*/\"u\"//v\n".toList ∧
      (containsSemanticSnippet "/*\n*/\"u\"//v\n".toList "\"u\"".toList = true ↔
        normalizedSpace "\"u\"".toList ≠ [] ∧
          contains (normalizedSpace "\"u\"".toList)
            (normalizedSpace (stripComments "/*\n*/\"u\"//v\n".toList)) = true) := by
  have hend : Undisputed false ['\n'] := .code (by decide) (fun h => absurd h (by decide)) .nil
  have hremoved : (activeFoamContent ['/', '/', 'v']).all isSpace = true := by decide
  have hline : Undisputed false ('/' :: '/' :: ['v'] ++ ['\n']) :=
    .line (by decide) (fun _ hc => Option.some.inj hc ▸ rfl) (by decide) (List.all_eq_true.1 hremoved)
      hend
  have hquoted : Undisputed true "\"u\"//v\n".toList :=
    .quoted (.inl rfl) rfl (by decide) (by decide) hline
  have hblock : Undisputed true "/*\n*/\"u\"//v\n".toList :=
    .block (n := 3) rfl (fun _ => .inl rfl) hquoted
  exact ⟨hblock, containsSemanticSnippet_iff hblock _⟩

/-- A statement that is commented out for the parsers counts as evidence: the block comment inside
the line comment takes the second slash along. -/
theorem evidence_from_comment :
    containsSemanticSnippet "//* note */ deltaT 1;\n".toList "deltaT 1;".toList = true ∧
      contains (normalizedSpace "deltaT 1;".toList)
        (normalizedSpace (stripComments "//* note */ deltaT 1;\n".toList)) = false := by
  decide +kernel

/-- The words can also agree by chance: here the expressions remove a part of a string and leave
its like of the line comment. -/
example :
    normalizedSpace (activeFoamContent "\" /* \" // */ /* \"".toList) =
      normalizedSpace (stripComments "\" /* \" // */ /* \"".toList) := by
  decide +kernel

end Verification
end OpenFoamAgent
