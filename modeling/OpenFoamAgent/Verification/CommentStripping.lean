/-
# What stripping the comments leaves

`strip_comments` of `verification/foam_semantics/parser.py`. `Decommented` tells what a text
is without its comments from what stands next in it: a character of code, a quoted string, a
comment. The scanner computes it (`decommented_iff`): it keeps what stands outside comments,
in its order, and of a block comment its line breaks.

No comment is opened by what is left. A slash of code is kept where neither a slash nor an
asterisk stands behind it, and the character behind it is then kept as well
(`Decommented.again`). So a second pass changes nothing, and a parser that is handed the
stripped text of another finds the same entries at the same places.
-/
import OpenFoamAgent.Verification.BoundaryFields

namespace OpenFoamAgent
namespace Verification

open Python Engineering

/-! ### Texts without comments -/

/-- What stands behind an opening quote up to and with the quote that closes it. -/
inductive QuotedTail (q : Char) : Text → Prop
  | close : QuotedTail q [q]
  | escaped {c : Char} {cs : Text} : QuotedTail q cs → QuotedTail q ('\\' :: c :: cs)
  | char {c : Char} {cs : Text} : c ≠ '\\' → c ≠ q → QuotedTail q cs → QuotedTail q (c :: cs)

/-- What stands behind an opening quote that nothing closes. -/
inductive OpenTail (q : Char) : Text → Prop
  | nil : OpenTail q []
  | backslash : OpenTail q ['\\']
  | escaped {c : Char} {cs : Text} : OpenTail q cs → OpenTail q ('\\' :: c :: cs)
  | char {c : Char} {cs : Text} : c ≠ '\\' → c ≠ q → OpenTail q cs → OpenTail q (c :: cs)

/-- The line breaks of a comment. -/
def lineBreaks (body : Text) : Text := body.filter (· = '\n')

/-- A text, and what stands in it outside comments together with the line breaks of its block
comments. -/
inductive Decommented : Text → Text → Prop
  | nil : Decommented [] []
  | code {c : Char} {cs kept : Text} : c ≠ '"' → c ≠ '\'' →
      (c = '/' → ∀ d ∈ cs.head?, d ≠ '/' ∧ d ≠ '*') →
      Decommented cs kept → Decommented (c :: cs) (c :: kept)
  | quoted {q : Char} {tail cs kept : Text} : q = '"' ∨ q = '\'' → QuotedTail q tail →
      Decommented cs kept → Decommented (q :: (tail ++ cs)) (q :: (tail ++ kept))
  | openQuote {q : Char} {tail : Text} : q = '"' ∨ q = '\'' → OpenTail q tail →
      Decommented (q :: tail) (q :: tail)
  | line {body cs kept : Text} : '\n' ∉ body → (∀ c ∈ cs.head?, c = '\n') →
      Decommented cs kept → Decommented ('/' :: '/' :: (body ++ cs)) kept
  | block {body cs kept : Text} : ¬ ['*', '/'] <:+: body → Decommented cs kept →
      Decommented ('/' :: '*' :: (body ++ '*' :: '/' :: cs)) (lineBreaks body ++ kept)
  | openBlock {body : Text} : ¬ ['*', '/'] <:+: body →
      Decommented ('/' :: '*' :: body) (lineBreaks body.dropLast)

/-! ### The scanner in each of its modes -/

theorem stripFrom_quoted_char {q c : Char} {cs : Text} (hc : c ≠ '\\') :
    stripFrom (.quoted q) (c :: cs) =
      c :: stripFrom (if c = q then .code else .quoted q) cs := by
  rw [stripFrom]
  rintro d ds rfl rfl
  exact hc rfl

theorem stripFrom_quotedTail {q : Char} (hq : q ≠ '\\') {tail : Text} (h : QuotedTail q tail)
    (cs : Text) : stripFrom (.quoted q) (tail ++ cs) = tail ++ stripFrom .code cs := by
  induction h with
  | close =>
    rw [List.singleton_append, stripFrom_quoted_char hq, if_pos rfl, List.singleton_append]
  | escaped _ ih => rw [List.cons_append, List.cons_append, stripFrom, ih]; rfl
  | char hslash hne _ ih =>
    rw [List.cons_append, stripFrom_quoted_char hslash, if_neg hne, ih, List.cons_append]

theorem stripFrom_openTail {q : Char} {tail : Text} (h : OpenTail q tail) :
    stripFrom (.quoted q) tail = tail := by
  induction h with
  | nil => rfl
  | backslash => simp [stripFrom]
  | escaped _ ih => rw [stripFrom, ih]
  | char hslash hne _ ih => rw [stripFrom_quoted_char hslash, if_neg hne, ih]

theorem quotedTail_or_openTail (q : Char) (cs : Text) :
    (∃ tail rest, cs = tail ++ rest ∧ QuotedTail q tail) ∨ OpenTail q cs := by
  induction hn : cs.length using Nat.strong_induction_on generalizing cs with
  | _ n ih =>
    rcases cs with _ | ⟨c, cs⟩
    · exact .inr .nil
    rw [List.length_cons] at hn
    by_cases hslash : c = '\\'
    · subst hslash
      rcases cs with _ | ⟨d, cs⟩
      · exact .inr .backslash
      rw [List.length_cons] at hn
      rcases ih cs.length (by omega) cs rfl with ⟨tail, rest, rfl, htail⟩ | hopen
      · exact .inl ⟨'\\' :: d :: tail, rest, rfl, .escaped htail⟩
      · exact .inr (.escaped hopen)
    · by_cases hquote : c = q
      · subst hquote
        exact .inl ⟨[c], cs, rfl, .close⟩
      · rcases ih cs.length (by omega) cs rfl with ⟨tail, rest, rfl, htail⟩ | hopen
        · exact .inl ⟨c :: tail, rest, rfl, .char hslash hquote htail⟩
        · exact .inr (.char hslash hquote hopen)

theorem stripFrom_block_char {c : Char} {cs : Text} (hcs : cs ≠ [])
    (hclose : c = '*' → ∀ d ∈ cs.head?, d ≠ '/') :
    stripFrom .block (c :: cs) =
      if c = '\n' then '\n' :: stripFrom .block cs else stripFrom .block cs := by
  rw [stripFrom]
  · rintro ds rfl rfl
    exact hclose rfl '/' rfl rfl
  · rintro rfl
    exact hcs rfl

/-- A comment that is not closed within its first characters is not closed by one of them. -/
theorem head_ne_of_not_closed {c : Char} {body rest : Text}
    (h : ¬ ['*', '/'] <:+: c :: body) (hrest : ∀ d ∈ rest.head?, d ≠ '/') (hc : c = '*') :
    ∀ d ∈ (body ++ rest).head?, d ≠ '/' := by
  subst hc
  rcases body with _ | ⟨b, body⟩
  · exact hrest
  · rintro d hd rfl
    obtain rfl : b = '/' := Option.some.inj hd
    exact h ⟨[], body, rfl⟩

theorem stripFrom_closedBlock {body : Text} (h : ¬ ['*', '/'] <:+: body) (cs : Text) :
    stripFrom .block (body ++ '*' :: '/' :: cs) = lineBreaks body ++ stripFrom .code cs := by
  induction body with
  | nil => rfl
  | cons c body ih =>
    have hbody : ¬ ['*', '/'] <:+: body := fun hin =>
      h (hin.trans (List.suffix_cons c body).isInfix)
    rw [List.cons_append, stripFrom_block_char (by simp)
      (head_ne_of_not_closed h (by rintro d ⟨⟩; decide)), ih hbody, lineBreaks, lineBreaks,
      List.filter_cons]
    by_cases hc : c = '\n' <;> simp [hc]

theorem stripFrom_openBlock {body : Text} (h : ¬ ['*', '/'] <:+: body) :
    stripFrom .block body = lineBreaks body.dropLast := by
  induction body with
  | nil => rfl
  | cons c body ih =>
    have hbody : ¬ ['*', '/'] <:+: body := fun hin =>
      h (hin.trans (List.suffix_cons c body).isInfix)
    rcases body with _ | ⟨b, body⟩
    · simp [stripFrom, lineBreaks]
    have hnil : ∀ d ∈ ([] : Text).head?, d ≠ '/' := by rintro d ⟨⟩
    have hclose := head_ne_of_not_closed h hnil
    rw [List.append_nil] at hclose
    rw [stripFrom_block_char (by simp) hclose, ih hbody, List.dropLast_cons_cons, lineBreaks,
      lineBreaks, List.filter_cons]
    by_cases hc : c = '\n' <;> simp [hc]

theorem closed_or_open (cs : Text) :
    (∃ body rest, cs = body ++ '*' :: '/' :: rest ∧ ¬ ['*', '/'] <:+: body) ∨
      ¬ ['*', '/'] <:+: cs := by
  induction cs with
  | nil => exact .inr fun h => by simpa using List.eq_nil_of_infix_nil h
  | cons c cs ih =>
    by_cases hhead : ['*', '/'] <+: c :: cs
    · obtain ⟨rest, hrest⟩ := hhead
      exact .inl ⟨[], rest, hrest.symm, fun h => by simpa using List.eq_nil_of_infix_nil h⟩
    · rcases ih with ⟨body, rest, rfl, hbody⟩ | hopen
      · refine .inl ⟨c :: body, rest, rfl, fun hin => ?_⟩
        rcases List.infix_cons_iff.1 hin with hpre | hin
        · exact hhead (hpre.trans ⟨'*' :: '/' :: rest, rfl⟩)
        · exact hbody hin
      · refine .inr fun hin => ?_
        rcases List.infix_cons_iff.1 hin with hpre | hin
        · exact hhead hpre
        · exact hopen hin

theorem exists_line (t : Text) :
    ∃ body cs, t = body ++ cs ∧ '\n' ∉ body ∧ ∀ c ∈ cs.head?, c = '\n' := by
  induction t with
  | nil => exact ⟨[], [], rfl, List.not_mem_nil, nofun⟩
  | cons c t ih =>
    by_cases hc : c = '\n'
    · exact ⟨[], c :: t, rfl, List.not_mem_nil, fun d hd => (Option.some.inj hd) ▸ hc⟩
    · obtain ⟨body, cs, rfl, hbody, hcs⟩ := ih
      exact ⟨c :: body, cs, rfl, by simp [hbody, Ne.symm hc], hcs⟩

/-! ### The scanner and the texts without comments -/

theorem Decommented.stripComments {t kept : Text} (h : Decommented t kept) :
    stripComments t = kept := by
  have hslash : ∀ {q : Char}, q = '"' ∨ q = '\'' → q ≠ '\\' := by
    rintro q (rfl | rfl) <;> decide
  unfold Engineering.stripComments
  induction h with
  | nil => rfl
  | code hdouble hsingle hmark _ ih => rw [stripFrom_code ⟨hdouble, hsingle⟩ hmark, ih]
  | quoted hq htail _ ih =>
    rw [stripFrom_quote hq, stripFrom_quotedTail (hslash hq) htail, ih]
  | openQuote hq htail => rw [stripFrom_quote hq, stripFrom_openTail htail]
  | line hbody hbreak _ ih => rw [stripFrom, stripFrom_line hbody hbreak, ih]
  | block hbody _ ih => rw [stripFrom, stripFrom_closedBlock hbody, ih]
  | openBlock hbody => rw [stripFrom, stripFrom_openBlock hbody]

/-- Every text has a reading: one of the cases applies to what stands next. -/
theorem exists_decommented (t : Text) : ∃ kept, Decommented t kept := by
  induction hn : t.length using Nat.strong_induction_on generalizing t with
  | _ n ih =>
    rcases t with _ | ⟨c, cs⟩
    · exact ⟨_, .nil⟩
    rw [List.length_cons] at hn
    by_cases hquote : c = '"' ∨ c = '\''
    · rcases quotedTail_or_openTail c cs with ⟨tail, rest, rfl, htail⟩ | hopen
      · rw [List.length_append] at hn
        obtain ⟨kept, hkept⟩ := ih rest.length (by omega) rest rfl
        exact ⟨_, .quoted hquote htail hkept⟩
      · exact ⟨_, .openQuote hquote hopen⟩
    obtain ⟨hdouble, hsingle⟩ := not_or.1 hquote
    by_cases hline : ['/', '/'] <+: c :: cs
    · obtain ⟨rest, hrest⟩ := hline
      obtain ⟨rfl, rfl⟩ := List.cons.inj hrest
      obtain ⟨body, cs, rfl, hbody, hcs⟩ := exists_line rest
      obtain ⟨kept, hkept⟩ := ih cs.length (by simp at hn; omega) cs rfl
      have hread : Decommented ('/' :: '/' :: (body ++ cs)) kept := .line hbody hcs hkept
      exact ⟨kept, hread⟩
    by_cases hblock : ['/', '*'] <+: c :: cs
    · obtain ⟨rest, hrest⟩ := hblock
      obtain ⟨rfl, rfl⟩ := List.cons.inj hrest
      rcases closed_or_open rest with ⟨body, rest, rfl, hbody⟩ | hopen
      · obtain ⟨kept, hkept⟩ := ih rest.length (by simp at hn; omega) rest rfl
        exact ⟨_, .block hbody hkept⟩
      · exact ⟨_, .openBlock hopen⟩
    obtain ⟨kept, hkept⟩ := ih cs.length (by omega) cs rfl
    refine ⟨_, .code hdouble hsingle ?_ hkept⟩
    rintro rfl d hd
    rcases cs with _ | ⟨e, cs⟩
    · cases hd
    obtain rfl : e = d := Option.some.inj hd
    exact ⟨fun h => hline ⟨cs, by rw [h]; rfl⟩, fun h => hblock ⟨cs, by rw [h]; rfl⟩⟩

/-- The scanner computes what a text is without its comments. -/
theorem decommented_iff {t kept : Text} : Decommented t kept ↔ stripComments t = kept := by
  refine ⟨Decommented.stripComments, ?_⟩
  rintro rfl
  obtain ⟨kept, hkept⟩ := exists_decommented t
  rwa [hkept.stripComments]

/-- What is kept stands in the text in the same order. -/
theorem Decommented.sublist {t kept : Text} (h : Decommented t kept) : kept.Sublist t := by
  induction h with
  | nil => exact List.Sublist.refl _
  | code _ _ _ _ ih => exact ih.cons_cons _
  | quoted _ _ _ ih => exact (ih.append_left _).cons_cons _
  | openQuote => exact List.Sublist.refl _
  | line _ _ _ ih =>
    exact ((ih.trans (List.sublist_append_right _ _)).cons _).cons _
  | block _ _ ih =>
    exact ((List.filter_sublist.append ((ih.cons _).cons _)).cons _).cons _
  | openBlock => exact ((List.filter_sublist.trans (List.dropLast_sublist _)).cons _).cons _

/-! ### A second pass -/

/-- The first character that is kept is the first of the text, where no comment stands there. -/
theorem Decommented.head {t kept : Text} (h : Decommented t kept) {d : Char}
    (ht : t.head? = some d) (hd : d ≠ '/') : kept.head? = some d := by
  cases h with
  | nil => cases ht
  | code | quoted | openQuote => exact ht
  | line | block | openBlock => exact absurd (Option.some.inj ht).symm hd

theorem decommented_lineBreaks (body : Text) {kept : Text} (h : Decommented kept kept) :
    Decommented (lineBreaks body ++ kept) (lineBreaks body ++ kept) := by
  induction body with
  | nil => exact h
  | cons c body ih =>
    unfold lineBreaks at ih ⊢
    rw [List.filter_cons]
    by_cases hc : c = '\n'
    · subst hc
      exact .code (by decide) (by decide) (fun hslash => absurd hslash (by decide)) ih
    · simpa [hc] using ih

/-- **What is left opens no comment.** A slash of code is kept only before a character that is
kept too, so removing comments brings no two characters together that open another. -/
theorem Decommented.again {t kept : Text} (h : Decommented t kept) : Decommented kept kept := by
  induction h with
  | nil => exact .nil
  | @code c cs kept hdouble hsingle hmark hrest ih =>
    refine .code hdouble hsingle (fun hc => ?_) ih
    rcases hhead : cs.head? with _ | e
    · rw [List.head?_eq_none_iff] at hhead
      subst hhead
      cases hrest
      rintro d ⟨⟩
    · have he := hmark hc e (by rw [hhead]; rfl)
      rintro d hd
      rw [hrest.head hhead he.1] at hd
      obtain rfl := Option.some.inj hd
      exact he
  | quoted hq htail _ ih => exact .quoted hq htail ih
  | openQuote hq htail => exact .openQuote hq htail
  | line _ _ _ ih => exact ih
  | block _ _ ih => exact decommented_lineBreaks _ ih
  | openBlock =>
    rw [← List.append_nil (lineBreaks _)]
    exact decommented_lineBreaks _ .nil

theorem stripComments_stripComments (t : Text) :
    stripComments (stripComments t) = stripComments t :=
  (decommented_iff.2 rfl).again.stripComments

/-! ### The parsers -/

/-- **Stripping the comments keeps what stands outside them, once and for all.** What is left
is what the text says outside comments, in its order; a second pass leaves it as it is, so the
parsers find in a stripped text what they find in the text, at the same places. -/
theorem stripComments_spec (isWord : Char → Bool) (t : Text) :
    (∀ kept, Decommented t kept ↔ stripComments t = kept) ∧
      (stripComments t).Sublist t ∧
      stripComments (stripComments t) = stripComments t ∧
      parseTopLevelAssignments (stripComments t) = parseTopLevelAssignments t ∧
      (∀ name, findNamedDictionary isWord (stripComments t) name =
        findNamedDictionary isWord t name) ∧
      (∀ name, parseNamedDictionaryAssignments isWord (stripComments t) name =
        parseNamedDictionaryAssignments isWord t name) ∧
      ∀ openIndex closing, Boundary.parseTopLevelBlocks isWord (stripComments t) openIndex closing =
        Boundary.parseTopLevelBlocks isWord t openIndex closing := by
  have hagain := stripComments_stripComments t
  refine ⟨fun kept => decommented_iff, (decommented_iff.2 rfl).sublist, hagain, ?_, fun name => ?_,
    fun name => ?_, fun openIndex closing => ?_⟩
  · unfold parseTopLevelAssignments
    rw [hagain]
  · unfold findNamedDictionary
    rw [hagain]
  · unfold parseNamedDictionaryAssignments namedDictionaryBody
    rw [hagain]
  · unfold Boundary.parseTopLevelBlocks
    rw [hagain]

end Verification
end OpenFoamAgent
