/-
# Semantic case assertions against the structural reader

`DeterministicSafetyGate.validate_plan` asks the line reader for the value of an
entry, `ExecutionApproval` the structural reader. On a text that is laid out in
whole lines the two agree: where `literal_entry_payload` finds a value,
`_foam_dictionary_entry_value` finds none or the same words
(`foamDictionaryEntryValue_sound`). On other texts they do not:
`foamDictionaryEntryValue_unsound` is a file of six lines, with an inline closing
brace, of which they read two values.

The structural reader is followed through the tree of the text: it skips a block
(`takeBlock_layout`), finds every statement and every block of a dictionary that
it reads completely (`Layout.items`), and so finds each statement at its way
(`Layout.literal`).
-/
import OpenFoamAgent.Verification.LineLayout

namespace OpenFoamAgent
namespace Verification

open Python Contracts

/-! ### Scans -/

theorem quoteAfter_append (q : QuoteScan) (a b : Text) :
    quoteAfter q (a ++ b) = quoteAfter (quoteAfter q a) b := List.foldl_append

theorem unquoted_append (q : QuoteScan) (a b : Text) :
    unquoted q (a ++ b) = unquoted q a ++ unquoted (quoteAfter q a) b := by
  induction a generalizing q with
  | nil => rfl
  | cons c cs ih =>
    cases q with
    | plain =>
      rw [List.cons_append, unquoted, unquoted, ih]
      rfl
    | quoted d | escaped d =>
      rw [List.cons_append, unquoted, unquoted, ih]
      · rfl
      all_goals exact fun h => QuoteScan.noConfusion h

theorem Closed.append {a b : Text} (ha : Closed a) (hb : Closed b) : Closed (a ++ b) := by
  obtain ⟨hqa, hoa, hca⟩ := ha
  obtain ⟨hqb, hob, hcb⟩ := hb
  refine ⟨by rw [quoteAfter_append, hqa, hqb], ?_, ?_⟩
  · rw [unquoted_append, hqa, List.mem_append, not_or]
    exact ⟨hoa, hob⟩
  · rw [unquoted_append, hqa, List.mem_append, not_or]
    exact ⟨hca, hcb⟩

/-- Text without quotes is scanned as it is. -/
theorem plain_scan {t : Text} (h : ∀ c ∈ t, c ≠ '"' ∧ c ≠ '\'') :
    quoteAfter .plain t = .plain ∧ unquoted .plain t = t := by
  induction t with
  | nil => exact ⟨rfl, rfl⟩
  | cons c cs ih =>
    obtain ⟨hc, hc'⟩ := h c List.mem_cons_self
    have hnext : QuoteScan.plain.next c = .plain := by
      rw [QuoteScan.next, if_neg (not_or.2 ⟨hc, hc'⟩)]
    obtain ⟨h1, h2⟩ := ih fun d hd => h d (List.mem_cons_of_mem _ hd)
    rw [quoteAfter, List.foldl_cons, unquoted, hnext, h2]
    exact ⟨h1, rfl⟩

theorem space_ne {c : Char} (h : isSpace c) :
    c ≠ '"' ∧ c ≠ '\'' ∧ c ≠ '{' ∧ c ≠ '}' ∧ c ≠ ';' := by
  refine ⟨?_, ?_, ?_, ?_, ?_⟩ <;> (rintro rfl; exact absurd h (by decide))

theorem closed_blank {t : Text} (h : strip t = []) : Closed t := by
  rw [strip_eq_nil] at h
  obtain ⟨h1, h2⟩ := plain_scan fun c hc => ⟨(space_ne (h c hc)).1, (space_ne (h c hc)).2.1⟩
  refine ⟨h1, ?_, ?_⟩
  · rw [h2]
    exact fun hmem => (space_ne (h _ hmem)).2.2.1 rfl
  · rw [h2]
    exact fun hmem => (space_ne (h _ hmem)).2.2.2.1 rfl

/-- `_matching_brace` passes over text without braces. -/
theorem takeBlock_append {t : Text} {q : QuoteScan} (ho : '{' ∉ unquoted q t)
    (hc : '}' ∉ unquoted q t) (depth : ℕ) (rest : Text) :
    takeBlock depth q (t ++ rest) =
      (takeBlock depth (quoteAfter q t) rest).map fun r => (t ++ r.1, r.2) := by
  induction t generalizing q with
  | nil => simp [quoteAfter]
  | cons c cs ih =>
    cases q with
    | plain =>
      rw [unquoted, List.mem_cons, not_or] at ho hc
      rw [List.cons_append, takeBlock, if_neg (fun h => hc.1 h.1.symm)]
      dsimp only
      rw [if_neg (Ne.symm ho.1), if_neg (Ne.symm hc.1), ih ho.2 hc.2, Option.map_map]
      rfl
    | quoted d | escaped d =>
      rw [unquoted] at ho hc
      · rw [List.cons_append, takeBlock, ih ho hc, Option.map_map]
        · rfl
        · exact fun h => QuoteScan.noConfusion h
      all_goals exact fun h => QuoteScan.noConfusion h

/-- The scan of a value passes over text without semicolons. -/
theorem takePayload_append {t : Text} (hs : ';' ∉ t) (q : QuoteScan) (depth : ℕ × ℕ) (rest : Text) :
    takePayload depth.1 depth.2 q (t ++ rest) =
      (takePayload ((unquoted q t).foldl brackets depth).1 ((unquoted q t).foldl brackets depth).2
        (quoteAfter q t) rest).map
        fun r => (t ++ r.1, r.2.1 || decide ('{' ∈ unquoted q t), r.2.2) := by
  induction t generalizing q depth with
  | nil => simp [quoteAfter, unquoted]
  | cons c cs ih =>
    rw [List.mem_cons, not_or] at hs
    cases q with
    | plain =>
      rw [List.cons_append, takePayload, if_neg (fun h => hs.1 h.1.symm)]
      dsimp only
      rw [show (if c = '(' then depth.1 + 1 else if c = ')' then depth.1 - 1 else depth.1) =
        (brackets depth c).1 from rfl, show (if c = '[' then depth.2 + 1 else if c = ']' then
        depth.2 - 1 else depth.2) = (brackets depth c).2 from rfl, ih hs.2, Option.map_map]
      rw [unquoted, List.foldl_cons]
      congr 1
      funext r
      by_cases hc : c = '{'
      · subst hc
        simp
      · simp [hc, Ne.symm hc]
    | quoted d | escaped d =>
      rw [List.cons_append, takePayload, ih hs.2, Option.map_map]
      · rw [unquoted]
        · rfl
        all_goals exact fun h => QuoteScan.noConfusion h
      all_goals exact fun h => QuoteScan.noConfusion h

/-! ### Blocks -/

/-- `_matching_brace` passes over the text, from one depth to another. -/
def Passes (depth : ℕ) (t : Text) (depth' : ℕ) : Prop :=
  ∀ rest, takeBlock depth .plain (t ++ rest) =
    (takeBlock depth' .plain rest).map fun r => (t ++ r.1, r.2)

theorem Passes.append {d d' d'' : ℕ} {a b : Text} (ha : Passes d a d') (hb : Passes d' b d'') :
    Passes d (a ++ b) d'' := by
  intro rest
  rw [List.append_assoc, ha, hb, Option.map_map]
  congr 1
  funext r
  simp

theorem Closed.passes {t : Text} (h : Closed t) (depth : ℕ) : Passes depth t depth := by
  intro rest
  rw [takeBlock_append h.2.1 h.2.2, h.1]

theorem passes_open (depth : ℕ) : Passes depth ['{'] (depth + 1) := by
  intro rest
  rw [List.singleton_append, takeBlock, if_neg (by simp)]
  rfl

theorem passes_close {depth : ℕ} (h : 1 ≤ depth) : Passes (depth + 1) ['}'] depth := by
  intro rest
  rw [List.singleton_append, takeBlock, if_neg (by omega)]
  rfl

theorem closed_statements {cs : List Text} (h : ∀ c ∈ cs, Closed c) :
    Closed (cs.flatMap fun c => c ++ [';']) := by
  induction cs with
  | nil => exact closed_blank rfl
  | cons c cs ih =>
    rw [List.flatMap_cons]
    exact ((h c List.mem_cons_self).append (by decide)).append
      (ih fun d hd => h d (List.mem_cons_of_mem _ hd))

theorem Layout.text_block (head : List Text) (name gap : Text) (body : Layout)
    (indent tail : Text) (rest : Layout) :
    (Layout.block head name gap body indent tail rest).text =
      Layout.headText head name ++ ['{'] ++ (gap ++ body.text ++ indent) ++ ['}'] ++
        (tail ++ rest.text) := by
  simp [Layout.text, Layout.lines, Layout.headText]

theorem Layout.text_statements (ls : List Text) (rest : Layout) :
    (Layout.statements ls rest).text =
      ((readStatements [] ls.flatten).1.flatMap fun c => c ++ [';']) ++
        (readStatements [] ls.flatten).2 ++ rest.text := by
  rw [readStatements_flatten]
  simp [Layout.text, Layout.lines]

/-- `_matching_brace` passes over a text that is laid out, inside a block. -/
theorem Layout.passes {entryPath : Text} {way : List Text} (layout : Layout)
    (h : layout.LaidOut entryPath way) {depth : ℕ} (hd : 1 ≤ depth) :
    Passes depth layout.text depth := by
  induction layout generalizing way depth with
  | done => exact (closed_blank rfl).passes depth
  | statements ls rest ih =>
    obtain ⟨hwhole, hblank, -, hrest⟩ := h
    rw [Layout.text_statements]
    refine Passes.append (Passes.append ?_ ((closed_blank hblank).passes depth)) (ih hrest hd)
    exact (closed_statements fun c hc => (hwhole c hc).1).passes depth
  | block head name gap body indent tail rest ihbody ihrest =>
    obtain ⟨-, hclosed, -, ⟨hgap, hindent, htail⟩, hbody, hrest⟩ := h
    rw [Layout.text_block]
    have hinner : Passes (depth + 1) (gap ++ body.text ++ indent) (depth + 1) :=
      (((closed_blank hgap).passes _).append (ihbody hbody (by omega))).append
        ((closed_blank hindent).passes _)
    exact ((((hclosed.passes depth).append (passes_open depth)).append hinner).append
      (passes_close hd)).append (((closed_blank htail).passes depth).append (ihrest hrest hd))

/-! ### Entries -/

theorem dropWhile_append_of_neg {p : Char → Bool} {c : Char} (hc : p c = false) (t rest : Text) :
    (t ++ c :: rest).dropWhile p = t.dropWhile p ++ c :: rest := by
  rw [List.dropWhile_append]
  split_ifs with h
  · rw [List.isEmpty_iff.1 h, List.dropWhile_cons_of_neg (by simp [hc])]
    rfl
  · rfl

theorem takeWhile_append_of_neg {p : Char → Bool} {c : Char} (hc : p c = false) (t rest : Text) :
    (t ++ c :: rest).takeWhile p = t.takeWhile p := by
  induction t with
  | nil => simp [hc]
  | cons d ds ih =>
    rw [List.cons_append, List.takeWhile_cons, List.takeWhile_cons, ih]

theorem keyCharacter_ne {c : Char} (h : keyCharacter c) :
    c ≠ '"' ∧ c ≠ '\'' ∧ c ≠ '{' ∧ c ≠ ';' ∧ isSpace c = false := by
  have hspace : isSpace c = false := by
    have hcode : (65 ≤ c.toNat ∧ c.toNat ≤ 90) ∨ (97 ≤ c.toNat ∧ c.toNat ≤ 122) ∨
        (48 ≤ c.toNat ∧ c.toNat ≤ 57) ∨ c.toNat = 95 ∨ c.toNat = 46 ∨ c.toNat = 45 := by
      simp only [keyCharacter, isAsciiWord, isAsciiLetter, isAsciiDigit, Bool.or_eq_true,
        Bool.and_eq_true, decide_eq_true_eq, beq_iff_eq] at h
      rcases h with ((((⟨h1, h2⟩ | ⟨h1, h2⟩) | ⟨h1, h2⟩) | rfl) | rfl) | rfl
      · exact .inl ⟨h1, h2⟩
      · exact .inr (.inl ⟨h1, h2⟩)
      · exact .inr (.inr (.inl ⟨h1, h2⟩))
      all_goals decide
    unfold isSpace
    simp only [Bool.or_eq_false_iff, Bool.and_eq_false_iff, decide_eq_false_iff_not,
      beq_eq_false_iff_ne]
    omega
  refine ⟨?_, ?_, ?_, ?_, hspace⟩ <;> (rintro rfl; exact absurd h (by decide))

/-- A key and the white space around it leave the scans where they are. -/
theorem scan_key {p : Text} (hp : ∀ c ∈ p, isSpace c ∨ keyCharacter c) (t : Text) :
    quoteAfter .plain (p ++ t) = quoteAfter .plain t ∧
      unquoted .plain (p ++ t) = p ++ unquoted .plain t ∧ p.foldl brackets (0, 0) = (0, 0) := by
  obtain ⟨hq, hu⟩ := plain_scan (t := p) fun c hc => by
    rcases hp c hc with hs | hk
    · exact ⟨(space_ne hs).1, (space_ne hs).2.1⟩
    · exact ⟨(keyCharacter_ne hk).1, (keyCharacter_ne hk).2.1⟩
  refine ⟨by rw [quoteAfter_append, hq], by rw [unquoted_append, hq, hu], ?_⟩
  clear hq hu
  induction p with
  | nil => rfl
  | cons c cs ih =>
    have hc : c ≠ '(' ∧ c ≠ ')' ∧ c ≠ '[' ∧ c ≠ ']' := by
      refine ⟨?_, ?_, ?_, ?_⟩ <;>
        (rintro rfl; exact absurd (hp _ List.mem_cons_self) (by decide))
    rw [List.foldl_cons, brackets, if_neg hc.1, if_neg hc.2.1, if_neg hc.2.2.1, if_neg hc.2.2.2]
    exact ih fun d hd => hp d (List.mem_cons_of_mem _ hd)

/-- White space before an entry does not matter. -/
theorem entriesFrom_blank {b : Text} (hb : strip b = []) (n : ℕ) (result : Entries)
    (complete : Bool) (t : Text) :
    entriesFrom n result complete (b ++ t) = entriesFrom n result complete t := by
  have hread : readEntry result (b ++ t) = readEntry result t := by
    unfold readEntry
    rw [List.dropWhile_append_of_pos (strip_eq_nil.1 hb)]
  cases n with
  | zero => rfl
  | succ n => rw [entriesFrom, entriesFrom, hread]

/-- A reading that ends complete finds an entry wherever there is text. -/
theorem entriesFrom_step {n : ℕ} {result entries : Entries} {complete : Bool} {text : Text}
    (h : entriesFrom n result complete text = (entries, true)) (hne : text.dropWhile isSpace ≠ []) :
    ∃ n' key payload rest, readEntry result text = .entry key payload true rest ∧
      entriesFrom n' (result ++ [(key, payload)]) complete rest = (entries, true) := by
  cases n with
  | zero => cases h
  | succ n =>
    unfold entriesFrom at h
    split at h
    · rename_i hfinished
      unfold readEntry at hfinished
      split at hfinished
      · exact absurd ‹_› hne
      · dsimp only at hfinished
        split_ifs at hfinished
        unfold readValue at hfinished
        split at hfinished <;> split at hfinished <;> cases hfinished
    · cases h
    · rename_i key payload entryComplete rest hstep
      obtain ⟨-, rfl⟩ := Bool.and_eq_true_iff.1 (entriesFrom_payload h).1
      rw [Bool.and_true] at h
      exact ⟨n, key, payload, rest, hstep, h⟩

/-- The entry at the start of a text, up to a character that ends keys: white space, the
key, white space, and the value. -/
theorem readEntry_eq_entry {result : Entries} {t rest key payload rest' : Text} {x : Char}
    {complete : Bool} (hx : keyCharacter x = false) (hxs : isSpace x = false)
    (h : readEntry result (t ++ x :: rest) = .entry key payload complete rest') :
    ∃ b a u, t = b ++ key ++ a ++ u ∧ strip b = [] ∧ strip a = [] ∧ key ≠ [] ∧
      (∀ c ∈ key, keyCharacter c) ∧ (∀ c ∈ (a ++ u).head?, keyCharacter c = false) ∧
      (∀ c ∈ b ++ key ++ a, isSpace c ∨ keyCharacter c) ∧ readValue key (u ++ x :: rest) = .entry key payload complete rest' := by
  unfold readEntry at h
  rw [dropWhile_append_of_neg hxs] at h
  cases hd : t.dropWhile isSpace with
  | nil =>
    have hstart : keyStart x = false := by
      rw [Bool.eq_false_iff]
      intro hstart
      rw [keyCharacter_of_keyStart hstart] at hx
      cases hx
    rw [hd, List.nil_append] at h
    dsimp only at h
    rw [if_pos (.inr (by simp [hstart]))] at h
    cases h
  | cons c cs =>
    rw [hd, List.cons_append] at h
    dsimp only at h
    split_ifs at h with hstart hdup
    rw [takeWhile_append_of_neg hx, dropWhile_append_of_neg hx, dropWhile_append_of_neg hxs] at h
    have hkey : key = c :: cs.takeWhile keyCharacter := by
      unfold readValue at h
      split at h <;> split at h <;> cases h <;> rfl
    rw [not_or] at hstart
    subst hkey
    have hchars : ∀ d ∈ c :: cs.takeWhile keyCharacter, keyCharacter d := by
      rintro d (_ | ⟨_, hmem⟩)
      · exact keyCharacter_of_keyStart (by simpa using hstart.2)
      · exact List.mem_takeWhile_imp hmem
    refine ⟨t.takeWhile isSpace, (cs.dropWhile keyCharacter).takeWhile isSpace,
      (cs.dropWhile keyCharacter).dropWhile isSpace, ?_,
      strip_eq_nil.2 fun d hd => List.mem_takeWhile_imp hd,
      strip_eq_nil.2 fun d hd => List.mem_takeWhile_imp hd, List.cons_ne_nil _ _, hchars, ?_, ?_, h⟩
    · rw [List.append_assoc, List.takeWhile_append_dropWhile, List.append_assoc, List.cons_append,
        List.takeWhile_append_dropWhile, ← hd, List.takeWhile_append_dropWhile]
    · rw [List.takeWhile_append_dropWhile]
      exact head?_dropWhile
    · intro d hmem
      rcases List.mem_append.1 hmem with hmem | hmem
      · exact (List.mem_append.1 hmem).imp List.mem_takeWhile_imp (hchars d)
      · exact .inl (List.mem_takeWhile_imp hmem)

theorem readValue_of_ne {key text : Text} (h : ∀ r, text ≠ '{' :: r) :
    readValue key text =
      match takePayload 0 0 .plain text with
      | none => .incomplete
      | some (value, brace, rest) =>
        .entry key (strip value) (!brace && !(strip value).isEmpty) rest := by
  unfold readValue
  split
  · exact absurd rfl (h _)
  · rfl

/-- The key that the structural reader takes from a chunk is the key of the assignment, if
that consists of key characters. -/
theorem assignment_key {key a u k v : Text} (hkey : ∀ c ∈ key, keyCharacter c) (hne : key ≠ [])
    (hhead : ∀ c ∈ (a ++ u).head?, keyCharacter c = false) (hk : ∀ c ∈ k, keyCharacter c)
    (hwords : words (key ++ (a ++ u)) = k :: words v) : key = k ∧ words (a ++ u) = words v := by
  have hspace : ∀ c ∈ key, isSpace c = false := fun c hc => (keyCharacter_ne (hkey c hc)).2.2.2.2
  cases hr : a ++ u with
  | nil =>
    rw [hr, List.append_nil, words_of_noSpace hne hspace] at hwords
    obtain ⟨rfl, hv⟩ := List.cons.inj hwords
    exact ⟨rfl, by rw [words_nil, hv]⟩
  | cons d ds =>
    by_cases hd : isSpace d = true
    · rw [hr, words_word_append hne hspace (by rintro c ⟨⟩; exact hd)] at hwords
      exact List.cons.inj hwords
    · -- the first word goes on behind the key, with a character that no key has
      exfalso
      have htake : ((key ++ d :: ds).takeWhile fun c => !isSpace c) =
          key ++ d :: ds.takeWhile fun c => !isSpace c := by
        rw [List.takeWhile_append_of_pos fun c hc => by simp [hspace c hc],
          List.takeWhile_cons_of_pos (by simpa using hd)]
      have hword := words_word_append (w := (key ++ d :: ds).takeWhile fun c => !isSpace c)
        (r := (key ++ d :: ds).dropWhile fun c => !isSpace c) (by rw [htake]; simp)
        (fun c hc => by simpa using List.mem_takeWhile_imp hc)
        (fun c hc => by simpa using head?_dropWhile c hc)
      rw [List.takeWhile_append_dropWhile, ← hr, hwords, hr, htake] at hword
      have hmem : d ∈ k := by
        rw [(List.cons.inj hword).1]
        simp
      have hnone := hhead d (by rw [hr]; rfl)
      rw [hk d hmem] at hnone
      cases hnone

/-- A complete reading finds a statement: the entry of its key. -/
theorem entriesFrom_statement {n : ℕ} {result entries : Entries} {complete : Bool} {c rest : Text}
    (h : entriesFrom n result complete (c ++ ';' :: rest) = (entries, true)) (hw : Whole c)
    (hs : ';' ∉ c) :
    ∃ n' key payload, entriesFrom n' (result ++ [(key, payload)]) complete rest = (entries, true) ∧
      ∀ k v, assignment c = some (k, v) → (∀ d ∈ k, keyCharacter d) →
        key = k ∧ words payload = words v := by
  obtain ⟨n', key, payload, rest', hentry, hrest⟩ := entriesFrom_step h
    (by rw [dropWhile_append_of_neg (by decide)]; simp)
  obtain ⟨b, a, u, rfl, hb, ha, hne, hkey, hhead, hprefix, hvalue⟩ :=
    readEntry_eq_entry (by decide) (by decide) hentry
  obtain ⟨⟨hquote, hopen, -⟩, hbrackets⟩ := hw
  obtain ⟨hq, hu, hbr⟩ := scan_key hprefix u
  rw [hq] at hquote
  rw [hu, List.mem_append, not_or] at hopen
  rw [hu, List.foldl_append, hbr] at hbrackets
  have hsemicolon : ';' ∉ u := fun hmem => hs (List.mem_append_right _ hmem)
  have hbrace : ∀ r, u ++ ';' :: rest ≠ '{' :: r := by
    intro r heq
    cases u with
    | nil => cases heq
    | cons d ds =>
      obtain ⟨rfl, -⟩ := List.cons.inj heq
      exact hopen.2 List.mem_cons_self
  have htake : takePayload 0 0 .plain (u ++ ';' :: rest) =
      some (u, decide ('{' ∈ unquoted .plain u), rest) := by
    rw [takePayload_append hsemicolon .plain (0, 0), hbrackets, hquote, takePayload,
      if_pos (by simp)]
    simp
  rw [readValue_of_ne hbrace, htake] at hvalue
  dsimp only at hvalue
  injection hvalue with _ hpayload _ hrest'
  subst hpayload hrest'
  refine ⟨n', key, strip u, hrest, fun k v hassign hk => ?_⟩
  obtain ⟨hwords, -, -⟩ := assignment_eq_some hassign
  rw [List.append_assoc, List.append_assoc, words_spaces_append (strip_eq_nil.1 hb)] at hwords
  obtain ⟨hkk, hv⟩ := assignment_key hkey hne hhead hk hwords
  rw [words_spaces_append (strip_eq_nil.1 ha)] at hv
  exact ⟨hkk, by rw [words_strip, hv]⟩

/-- A complete reading finds a block: the entry of its name. -/
theorem entriesFrom_block {n : ℕ} {result entries : Entries} {complete : Bool} {t inner rest : Text}
    (h : entriesFrom n result complete (t ++ '{' :: (inner ++ '}' :: rest)) = (entries, true))
    (hc : Closed t) (hs : ';' ∉ t) (hinner : Passes 1 inner 1) :
    ∃ n', entriesFrom n' (result ++ [(strip t, '{' :: inner ++ ['}'])]) complete rest =
      (entries, true) := by
  obtain ⟨n', key, payload, rest', hentry, hrest⟩ := entriesFrom_step h
    (by rw [dropWhile_append_of_neg (by decide)]; simp)
  obtain ⟨b, a, u, rfl, hb, ha, hne, hkey, hhead, hprefix, hvalue⟩ :=
    readEntry_eq_entry (by decide) (by decide) hentry
  obtain ⟨hquote, hopen, -⟩ := hc
  obtain ⟨hq, hu, -⟩ := scan_key hprefix u
  rw [hq] at hquote
  rw [hu, List.mem_append, not_or] at hopen
  cases u with
  | nil =>
    have hblock : takeBlock 0 .plain ('{' :: (inner ++ '}' :: rest)) =
        some ('{' :: inner ++ ['}'], rest) := by
      have hpass := ((passes_open 0).append hinner) ('}' :: rest)
      rw [takeBlock, if_pos (by simp)] at hpass
      simpa using hpass
    rw [List.nil_append] at hvalue
    unfold readValue at hvalue
    rw [hblock] at hvalue
    dsimp only at hvalue
    injection hvalue with _ hpayload _ hrest'
    subst hpayload hrest'
    have hname : strip (b ++ key ++ a ++ []) = key := by
      rw [List.append_nil]
      exact strip_spaces_word (strip_eq_nil.1 hb) (strip_eq_nil.1 ha) hne fun c hc => by
        simp [(keyCharacter_ne (hkey c hc)).2.2.2.2]
    have hbraces : strip ('{' :: inner ++ ['}']) = '{' :: inner ++ ['}'] := by
      rw [strip, stripBy, List.cons_append, List.dropWhile_cons_of_neg (by decide), ← List.cons_append,
        List.rdropWhile_concat_neg _ _ _ (by decide)]
    rw [hname]
    rw [hbraces] at hrest
    exact ⟨n', hrest⟩
  | cons d ds =>
    -- a value with a brace outside quotes leaves the reading incomplete
    exfalso
    have hbrace : ∀ r, d :: ds ++ '{' :: (inner ++ '}' :: rest) ≠ '{' :: r := by
      intro r heq
      obtain ⟨rfl, -⟩ := List.cons.inj heq
      exact hopen.2 List.mem_cons_self
    rw [readValue_of_ne hbrace, takePayload_append (fun hmem => hs (List.mem_append_right _ hmem))
      .plain (0, 0), hquote, takePayload, if_neg (by simp)] at hvalue
    dsimp only at hvalue
    split at hvalue
    · cases hvalue
    · rename_i value brace rest'' hsome
      obtain ⟨r, hr, heq⟩ := Option.map_eq_some_iff.1 hsome
      obtain ⟨r', -, rfl⟩ := Option.map_eq_some_iff.1 hr
      obtain ⟨rfl, hflag⟩ := Prod.mk.inj heq
      obtain ⟨rfl, -⟩ := Prod.mk.inj hflag
      injection hvalue with _ _ hcomplete _
      simp at hcomplete

/-! ### Dictionaries -/

theorem entriesFrom_prefix (n : ℕ) (result : Entries) (complete : Bool) (text : Text) :
    result <+: (entriesFrom n result complete text).1 := by
  induction n generalizing result complete text with
  | zero => exact List.prefix_rfl
  | succ n ih =>
    unfold entriesFrom
    split
    · exact List.prefix_rfl
    · exact List.prefix_rfl
    · exact (List.prefix_append _ _).trans (ih _ _ _)

theorem mem_of_entriesFrom_concat {n : ℕ} {result entries : Entries} {e : Text × Text}
    {complete b : Bool} {text : Text}
    (h : entriesFrom n (result ++ [e]) complete text = (entries, b)) : e ∈ entries := by
  have hprefix := entriesFrom_prefix n (result ++ [e]) complete text
  rw [h] at hprefix
  exact hprefix.subset (List.mem_append_right _ List.mem_cons_self)

/-- The key of an entry is new, and of key characters. -/
theorem readEntry_key {result : Entries} {text key payload rest : Text} {complete : Bool}
    (h : readEntry result text = .entry key payload complete rest) :
    key ∉ result.map Prod.fst ∧ ∀ c ∈ key, keyCharacter c := by
  unfold readEntry at h
  split at h
  · cases h
  · rename_i c cs _
    dsimp only at h
    split_ifs at h with hstart hdup
    have hkey : c :: cs.takeWhile keyCharacter = key := by
      unfold readValue at h
      split at h <;> split at h <;> cases h <;> rfl
    subst hkey
    rw [not_or] at hstart
    refine ⟨hdup, ?_⟩
    rintro d (_ | ⟨_, hmem⟩)
    · exact keyCharacter_of_keyStart (by simpa using hstart.2)
    · exact List.mem_takeWhile_imp hmem

theorem entriesFrom_nodup (n : ℕ) {result : Entries} (complete : Bool) (text : Text)
    (h : (result.map Prod.fst).Nodup) :
    ((entriesFrom n result complete text).1.map Prod.fst).Nodup := by
  induction n generalizing result complete text with
  | zero => exact h
  | succ n ih =>
    unfold entriesFrom
    split
    · exact h
    · exact h
    · rename_i key payload entryComplete rest hstep
      refine ih _ _ ?_
      rw [List.map_append, List.nodup_append]
      refine ⟨h, List.nodup_singleton _, ?_⟩
      rintro a ha b hb rfl
      obtain rfl := List.mem_singleton.1 hb
      exact (readEntry_key hstep).1 ha

theorem entriesFrom_keys (n : ℕ) {result : Entries} (complete : Bool) (text : Text)
    (h : ∀ e ∈ result, ∀ c ∈ e.1, keyCharacter c) :
    ∀ e ∈ (entriesFrom n result complete text).1, ∀ c ∈ e.1, keyCharacter c := by
  induction n generalizing result complete text with
  | zero => exact h
  | succ n ih =>
    unfold entriesFrom
    split
    · exact h
    · exact h
    · rename_i key payload entryComplete rest hstep
      refine ih _ _ fun e he => ?_
      rcases List.mem_append.1 he with he | he
      · exact h e he
      · obtain rfl := List.mem_singleton.1 he
        exact (readEntry_key hstep).2

/-- A complete reading finds the statements before the rest of a text. -/
theorem entriesFrom_statements {cs : List Text} {n : ℕ} {result entries : Entries}
    {complete : Bool} {rest : Text} (hcs : ∀ c ∈ cs, Whole c ∧ ';' ∉ c)
    (h : entriesFrom n result complete ((cs.flatMap fun c => c ++ [';']) ++ rest) = (entries, true)) :
    (∃ n' result', entriesFrom n' result' complete rest = (entries, true)) ∧
      ∀ c ∈ cs, ∀ k v, assignment c = some (k, v) → (∀ d ∈ k, keyCharacter d) →
        ∃ payload, (k, payload) ∈ entries ∧ words payload = words v := by
  induction cs generalizing n result with
  | nil => exact ⟨⟨n, result, h⟩, fun c hc => absurd hc List.not_mem_nil⟩
  | cons c cs ih =>
    obtain ⟨hw, hs⟩ := hcs c List.mem_cons_self
    rw [List.flatMap_cons, List.append_assoc, List.append_assoc, List.singleton_append] at h
    obtain ⟨n', key, payload, hrest, hfirst⟩ := entriesFrom_statement h hw hs
    obtain ⟨hend, hothers⟩ := ih (fun d hd => hcs d (List.mem_cons_of_mem _ hd)) hrest
    refine ⟨hend, ?_⟩
    rintro d (_ | ⟨_, hd⟩) k v hassign hk
    · obtain ⟨rfl, hwords⟩ := hfirst k v hassign hk
      exact ⟨payload, mem_of_entriesFrom_concat hrest, hwords⟩
    · exact hothers d hd k v hassign hk

/-- The text of a block between its braces. -/
def Layout.inner (gap : Text) (body : Layout) (indent : Text) : Text := gap ++ body.text ++ indent

/-- The entries hold every statement and every block of the dictionary. -/
def Layout.Found (entries : Entries) : Layout → Prop
  | .done => True
  | .statements ls rest =>
    (∀ c ∈ (readStatements [] ls.flatten).1, ∀ k v, assignment c = some (k, v) →
      (∀ d ∈ k, keyCharacter d) → ∃ payload, (k, payload) ∈ entries ∧ words payload = words v) ∧
      Found entries rest
  | .block head name gap body indent _ rest =>
    (strip (headText head name), '{' :: inner gap body indent ++ ['}']) ∈ entries ∧
      Found entries rest

/-- A dictionary that is laid out and read completely is read as the tree has it. -/
theorem Layout.found {entryPath : Text} {way : List Text} (layout : Layout)
    (hlaid : layout.LaidOut entryPath way) {n : ℕ} {result entries : Entries} {complete : Bool}
    {b a : Text} (hb : strip b = [])
    (h : entriesFrom n result complete (b ++ layout.text ++ a) = (entries, true)) :
    layout.Found entries := by
  rw [List.append_assoc, entriesFrom_blank hb] at h
  clear hb
  induction layout generalizing way n result with
  | done => trivial
  | statements ls rest ih =>
    obtain ⟨hwhole, hblank, -, hrest⟩ := hlaid
    rw [Layout.text_statements, List.append_assoc, List.append_assoc] at h
    obtain ⟨⟨n', result', hend⟩, hstatements⟩ := entriesFrom_statements (fun c hc =>
      ⟨hwhole c hc, (notMem_readStatements List.not_mem_nil _).2 c hc⟩) h
    rw [entriesFrom_blank hblank] at hend
    exact ⟨hstatements, ih hrest hend⟩
  | block head name gap body indent tail rest ihbody ihrest =>
    obtain ⟨-, hclosed, hs, ⟨hgap, hindent, htail⟩, hbody, hrest⟩ := hlaid
    have hinner : Passes 1 (inner gap body indent) 1 :=
      (((closed_blank hgap).passes 1).append (body.passes hbody le_rfl)).append
        ((closed_blank hindent).passes 1)
    have hsplit : (Layout.block head name gap body indent tail rest).text ++ a =
        headText head name ++ '{' :: (inner gap body indent ++ '}' :: (tail ++ (rest.text ++ a))) := by
      rw [Layout.text_block, Layout.inner]
      simp
    rw [hsplit] at h
    obtain ⟨n', hend⟩ := entriesFrom_block h hclosed hs hinner
    refine ⟨mem_of_entriesFrom_concat hend, ?_⟩
    rw [entriesFrom_blank htail] at hend
    exact ihrest hrest hend

/-! ### Entry paths -/

/-- The text has no comment mark. -/
def NoCommentMarks (t : Text) : Prop := ¬ ['/', '/'] <:+: t ∧ ¬ ['/', '*'] <:+: t

instance (t : Text) : Decidable (NoCommentMarks t) := inferInstanceAs (Decidable (_ ∧ _))

theorem NoCommentMarks.of_infix {t t' : Text} (h : NoCommentMarks t) (hsub : t' <:+: t) :
    NoCommentMarks t' := ⟨fun h' => h.1 (h'.trans hsub), fun h' => h.2 (h'.trans hsub)⟩

theorem stripFoamComments_eq_self {t : Text} (h : NoCommentMarks t) : stripFoamComments t = t := by
  have hfrom : ∀ q, stripFrom (.code q) t = t := by
    induction t with
    | nil => exact fun q => by simp [stripFrom]
    | cons c cs ih =>
      have hcs := ih (h.of_infix (List.infix_cons List.infix_rfl))
      intro q
      cases q with
      | plain =>
        have hmark : ∀ d, c = '/' ∧ cs.head? = some d → ['/', d] <:+: c :: cs := by
          rintro d ⟨rfl, hd⟩
          obtain ⟨ds, rfl⟩ := List.head?_eq_some_iff.1 hd
          exact List.IsPrefix.isInfix ⟨ds, rfl⟩
        rw [stripFrom, if_neg fun hm => h.1 (hmark _ hm), if_neg fun hm => h.2 (hmark _ hm), hcs]
      | quoted d | escaped d =>
        rw [stripFrom, hcs]
        exact fun hq => QuoteScan.noConfusion hq
  exact hfrom .plain

theorem way_prefix {layout : Layout} {way w : List Text} {c : Text}
    (h : (w, c) ∈ layout.statementsAt way) : way <+: w := by
  induction layout generalizing way with
  | done => cases h
  | statements ls rest ih =>
    rcases List.mem_append.1 h with h | h
    · obtain ⟨c', -, heq⟩ := List.mem_map.1 h
      obtain ⟨rfl, -⟩ := Prod.mk.inj heq
      exact List.prefix_rfl
    · exact ih h
  | block head name gap body indent tail rest ihbody ihrest =>
    rcases List.mem_append.1 h with h | h
    · exact (List.prefix_append _ _).trans (ihbody h)
    · exact ihrest h

/-- What `literal_entry_payload` does with the first name of a path. -/
theorem literalEntryFrom_cons {part v text : Text} {parts : List Text}
    (h : literalEntryFrom (part :: parts) text = some v) :
    ∃ payload, (topLevelEntryPayloads text).2 = true ∧
      (part, payload) ∈ (topLevelEntryPayloads text).1 ∧
      (parts = [] ∧ v = payload ∨
        parts ≠ [] ∧ literalEntryFrom parts (payload.drop 1).dropLast = some v) := by
  rw [literalEntryFrom] at h
  dsimp only at h
  split at h
  · cases h
  · rename_i hcomplete
    split at h
    · cases h
    · rename_i payload hget
      refine ⟨payload, by simpa using hcomplete, Entries.mem_of_get hget, ?_⟩
      split_ifs at h with hlast
      · exact .inl ⟨hlast, (Option.some.inj h).symm⟩
      · exact .inr ⟨hlast, h⟩

/-- An entry of a text has one payload. -/
theorem topLevelEntryPayloads_unique {text key p p' : Text}
    (h : (key, p) ∈ (topLevelEntryPayloads text).1) (h' : (key, p') ∈ (topLevelEntryPayloads text).1) :
    p = p' := by
  have hnodup : ((topLevelEntryPayloads text).1.map Prod.fst).Nodup :=
    entriesFrom_nodup _ true (stripFoamComments text) List.nodup_nil
  exact congrArg Prod.snd (List.inj_on_of_nodup_map hnodup h h' rfl)

theorem topLevelEntryPayloads_key {text key p : Text}
    (h : (key, p) ∈ (topLevelEntryPayloads text).1) : ∀ c ∈ key, keyCharacter c :=
  entriesFrom_keys _ true (stripFoamComments text) (fun _ he => absurd he List.not_mem_nil) _ h

/-- A value that the structural reader finds at the way of a statement has the words of the
value of that statement. -/
theorem Layout.literal {entryPath : Text} (layout : Layout) {way parts w : List Text}
    {text c k u v : Text} (hlaid : layout.LaidOut entryPath way)
    (hmarks : NoCommentMarks layout.text)
    (hfound : (topLevelEntryPayloads text).2 = true → layout.Found (topLevelEntryPayloads text).1)
    (hliteral : literalEntryFrom parts text = some v) (hmem : (w, c) ∈ layout.statementsAt way)
    (hassign : assignment c = some (k, u)) (hway : w ++ [k] = way ++ parts) :
    words v = words u := by
  induction layout generalizing way parts text with
  | done => cases hmem
  | statements ls rest ih =>
    rcases List.mem_append.1 hmem with hmem | hmem
    · obtain ⟨c', hc, heq⟩ := List.mem_map.1 hmem
      obtain ⟨rfl, rfl⟩ := Prod.mk.inj heq
      obtain rfl := List.append_cancel_left hway
      obtain ⟨payload, hcomplete, hentry, hlast⟩ := literalEntryFrom_cons hliteral
      obtain ⟨payload', hentry', hwords⟩ :=
        (hfound hcomplete).1 c' hc k u hassign (topLevelEntryPayloads_key hentry)
      rcases hlast with ⟨-, rfl⟩ | ⟨hne, -⟩
      · rw [topLevelEntryPayloads_unique hentry hentry', hwords]
      · exact absurd rfl hne
    · rw [Layout.text_statements] at hmarks
      exact ih hlaid.2.2.2 (hmarks.of_infix (List.suffix_append _ _).isInfix)
        (fun hc => (hfound hc).2) hliteral hmem hway
  | block head name gap body indent tail rest ihbody ihrest =>
    obtain ⟨-, -, -, ⟨hgap, -, -⟩, hbody, hrest⟩ := hlaid
    rw [Layout.text_block, ← Layout.inner] at hmarks
    rcases List.mem_append.1 hmem with hmem | hmem
    · obtain ⟨way', rfl⟩ := way_prefix hmem
      have hparts : parts = strip (headText head name) :: (way' ++ [k]) := by
        rw [List.append_assoc, List.append_assoc] at hway
        exact (List.append_cancel_left hway).symm
      subst hparts
      obtain ⟨payload, hcomplete, hentry, hlast⟩ := literalEntryFrom_cons hliteral
      rcases hlast with ⟨hnil, -⟩ | ⟨-, hinside⟩
      · cases way' <;> cases hnil
      · rw [topLevelEntryPayloads_unique hentry (hfound hcomplete).1] at hinside hentry
        have hdrop : (('{' :: inner gap body indent ++ ['}']).drop 1).dropLast =
            inner gap body indent := by simp
        rw [hdrop] at hinside
        have hinner : NoCommentMarks (inner gap body indent) :=
          hmarks.of_infix ⟨headText head name ++ ['{'], ['}'] ++ (tail ++ rest.text), by simp⟩
        refine ihbody hbody (hinner.of_infix ⟨gap, indent, rfl⟩) (fun hc => ?_) hinside hmem (by simp)
        have hpair : topLevelEntryPayloads (inner gap body indent) =
          ((topLevelEntryPayloads (inner gap body indent)).1, true) := Prod.ext rfl hc
        conv_lhs at hpair => rw [topLevelEntryPayloads, stripFoamComments_eq_self hinner]
        exact body.found hbody hgap hpair
    · exact ihrest hrest (hmarks.of_infix ((List.suffix_append _ _).trans (List.suffix_append _ _)).isInfix)
        (fun hc => (hfound hc).2) hliteral hmem hway

/-! ### Case assertions -/

/-- The texts on which the line reader may be asked for the entry: both readers drop the same
comments, and what is left is laid out in whole lines; no block name has a dot that would
make the path of another statement the path of the entry. -/
def LaidOutFor (text entryPath : Text) (layout : Layout) : Prop :=
  (activeFoamContent text = stripFoamComments text ∧ NoCommentMarks (stripFoamComments text)) ∧
    (layout.text = stripFoamComments text ∧ WholeLines layout.lines ∧ layout.LaidOut entryPath []) ∧
    ∀ wc ∈ layout.statementsAt [], ∀ kv ∈ assignment wc.2, dotted (wc.1 ++ [kv.1]) = entryPath →
      wc.1 ++ [kv.1] = entryPath.splitOn '.'

instance (text entryPath : Text) (layout : Layout) : Decidable (LaidOutFor text entryPath layout) :=
  inferInstanceAs (Decidable (_ ∧ _ ∧ _))

/-- A dictionary with a block on its own lines and one whose name stands before the brace, a
statement on two lines, and two statements on one line. -/
def nestedLayout : Layout :=
  .block ["a\n".toList] [] "\n".toList
    (.block [] "  b ".toList "\n".toList
      (.statements ["  c (1\n".toList, "    2); e 3;\n".toList] .done) "  ".toList "\n".toList .done)
    [] "\n".toList (.statements ["\n".toList, "d 4;\n".toList] .done)

end Verification
end OpenFoamAgent
