/-
# Quoted text in canonical payloads

`canonical_payload` of `contracts/execution.py` tells payloads apart by the matches of an
expression: a quoted string, or a run of characters that are no white space. A quote inside
a run begins no match. The run goes on through it, and where the string holds white space it
ends there: `("a b")` and `("a  b")` have one canonical payload.

`standsApart` says which payloads are compared as their tokens are: those in which every
string stands apart, or holds no white space (`canonicalPayload_faithful_iff`). In one that
does not, the white space that is cut away can be doubled without a trace
(`exists_blurs`).
-/
import OpenFoamAgent.Contracts.FoamReader

namespace OpenFoamAgent
namespace Contracts

open Python

/-! ### Tokens -/

/-- Where the reader of a payload stands: between two tokens, in a word, in a quoted string,
behind a backslash of one. -/
inductive PayloadMode where
  | between | word | quoted | escaped
  deriving DecidableEq

/-- A character in front of the token that is read. -/
def push (c : Char) : List Text → List Text
  | [] => [[c]]
  | token :: tokens => (c :: token) :: tokens

/-- The tokens of a payload from a position on; the first of them is the rest of the one the
reader stands in. A string that nothing closes goes on to the end. -/
def tokensFrom : PayloadMode → Text → List Text
  | .between, [] => []
  | _, [] => [[]]
  | .between, c :: cs =>
    if isSpace c then tokensFrom .between cs
    else push c (tokensFrom (if c = '"' then .quoted else .word) cs)
  | .word, c :: cs =>
    if isSpace c then [] :: tokensFrom .between cs
    else if c = '"' then [] :: push c (tokensFrom .quoted cs)
    else push c (tokensFrom .word cs)
  | .quoted, c :: cs =>
    if c = '"' then push c ([] :: tokensFrom .between cs)
    else push c (tokensFrom (if c = '\\' then .escaped else .quoted) cs)
  | .escaped, c :: cs => push c (tokensFrom .quoted cs)

/-- The tokens of a payload: the double-quoted strings, and between them the words. -/
def payloadTokens (payload : Text) : List Text := tokensFrom .between payload

/-- The double-quoted strings of a payload. -/
def quotedStrings (payload : Text) : List Text :=
  (payloadTokens payload).filter fun token => token.head? = some '"'

/-- The strings from a position on stand apart or hold no white space; `skip` characters belong
to a string that stands apart. The modes `quoted` and `escaped` are those of a string inside
a run of other characters. -/
def standsApartFrom : ℕ → PayloadMode → Text → Bool
  | _, .between, [] => true
  | _, .word, [] => true
  | _, _, [] => false
  | skip + 1, mode, _ :: cs => standsApartFrom skip mode cs
  | 0, .between, c :: cs =>
    if isSpace c then standsApartFrom 0 .between cs
    else if c = '"' then
      match quotedLength '"' cs with
      | some n => standsApartFrom n .between cs
      | none => standsApartFrom 0 .quoted cs
    else standsApartFrom 0 .word cs
  | 0, .word, c :: cs =>
    if isSpace c then standsApartFrom 0 .between cs
    else standsApartFrom 0 (if c = '"' then .quoted else .word) cs
  | 0, .quoted, c :: cs =>
    !isSpace c &&
      standsApartFrom 0 (if c = '"' then .word else if c = '\\' then .escaped else .quoted) cs
  | 0, .escaped, c :: cs => !isSpace c && standsApartFrom 0 .quoted cs

/-- Every double-quoted string is closed, and begins the payload, or stands behind white space
or behind a string that itself stands so, with no line break behind a backslash in it; or it
holds no white space. -/
def standsApart (payload : Text) : Bool := standsApartFrom 0 .between payload

/-! ### Strings that stand apart -/

theorem quotedLength_escape (q c : Char) (cs : Text) :
    quotedLength q ('\\' :: c :: cs) =
      if c = '\n' then none else (quotedLength q cs).map (· + 2) := rfl

theorem quotedLength_char {q c : Char} {cs : Text} (hc : c ≠ '\\') :
    quotedLength q (c :: cs) = if c = q then some 1 else (quotedLength q cs).map (· + 1) := by
  rw [quotedLength]
  · rintro rfl rfl
    exact hc rfl
  · rintro d ds rfl rfl
    exact hc rfl

/-- The characters of a quoted string, one step of the reader at a time. -/
theorem quotedLength_induction {motive : Text → Prop} (nil : motive []) (lone : motive ['\\'])
    (escape : ∀ c cs, motive cs → motive ('\\' :: c :: cs))
    (char : ∀ c cs, c ≠ '\\' → motive cs → motive (c :: cs)) (t : Text) : motive t := by
  induction hn : t.length using Nat.strong_induction_on generalizing t with
  | _ n ih =>
    rcases t with _ | ⟨c, t⟩
    · exact nil
    rw [List.length_cons] at hn
    by_cases hc : c = '\\'
    · subst hc
      rcases t with _ | ⟨d, t⟩
      · exact lone
      · rw [List.length_cons] at hn
        exact escape d t (ih t.length (by omega) t rfl)
    · exact char c t hc (ih t.length (by omega) t rfl)

/-- Where a string is closed does not depend on what follows. -/
theorem quotedLength_take {t : Text} {n : ℕ} (h : quotedLength '"' t = some n) :
    n ≤ t.length ∧ ∀ u, quotedLength '"' (t.take n ++ u) = some n := by
  induction t using quotedLength_induction generalizing n with
  | nil | lone => cases h
  | escape c cs ih =>
    rw [quotedLength_escape] at h
    split_ifs at h with hc
    obtain ⟨m, hm, rfl⟩ := Option.map_eq_some_iff.1 h
    obtain ⟨hle, htake⟩ := ih hm
    refine ⟨by simpa using hle, fun u => ?_⟩
    rw [List.take_succ_cons, List.take_succ_cons, List.cons_append, List.cons_append,
      quotedLength_escape, if_neg hc, htake]
    rfl
  | char c cs hslash ih =>
    rw [quotedLength_char hslash] at h
    split_ifs at h with hc
    · obtain rfl := Option.some.inj h
      refine ⟨by simp, fun u => ?_⟩
      rw [List.take_succ_cons, List.take_zero, List.singleton_append, quotedLength_char hslash,
        if_pos hc]
    · obtain ⟨m, hm, rfl⟩ := Option.map_eq_some_iff.1 h
      obtain ⟨hle, htake⟩ := ih hm
      refine ⟨by simpa using hle, fun u => ?_⟩
      rw [List.take_succ_cons, List.cons_append, quotedLength_char hslash, if_neg hc, htake]
      rfl

theorem push_ne_nil (c : Char) (tokens : List Text) : push c tokens ≠ [] := by
  cases tokens <;> exact List.cons_ne_nil _ _

theorem tokensFrom_ne_nil {mode : PayloadMode} (hmode : mode ≠ .between) (t : Text) :
    tokensFrom mode t ≠ [] := by
  cases t with
  | nil => cases mode <;> first | exact absurd rfl hmode | exact List.cons_ne_nil _ _
  | cons c t =>
    cases mode with
    | between => exact absurd rfl hmode
    | word =>
      rw [tokensFrom]
      split_ifs
      · exact List.cons_ne_nil _ _
      · exact List.cons_ne_nil _ _
      · exact push_ne_nil c _
    | quoted =>
      rw [tokensFrom]
      split_ifs <;> exact push_ne_nil c _
    | escaped => exact push_ne_nil c _

theorem tokensFrom_quoted_of_quotedLength {t : Text} {n : ℕ} (h : quotedLength '"' t = some n) :
    tokensFrom .quoted t = t.take n :: tokensFrom .between (t.drop n) := by
  induction t using quotedLength_induction generalizing n with
  | nil | lone => cases h
  | escape c cs ih =>
    rw [quotedLength_escape] at h
    split_ifs at h with hc
    obtain ⟨m, hm, rfl⟩ := Option.map_eq_some_iff.1 h
    rw [tokensFrom, if_neg (by decide), if_pos rfl, tokensFrom, ih hm]
    rfl
  | char c cs hslash ih =>
    rw [quotedLength_char hslash] at h
    rw [tokensFrom]
    split_ifs at h with hc
    · obtain rfl := Option.some.inj h
      rw [if_pos hc]
      rfl
    · obtain ⟨m, hm, rfl⟩ := Option.map_eq_some_iff.1 h
      rw [if_neg hc, if_neg hslash, ih hm]
      rfl

/-! ### Runs of characters that are no white space -/

/-- What ends a run: white space, or the end of the payload. -/
def EndsRun (rest : Text) : Prop := ∀ c ∈ rest.head?, isSpace c = true

/-- A mode of the tokens, and the mode of a run that corresponds to it. -/
inductive InRun : PayloadMode → PayloadMode → Prop
  | between : InRun .between .word
  | word : InRun .word .word
  | quoted : InRun .quoted .quoted
  | escaped : InRun .escaped .escaped

theorem push_append {tokens : List Text} (h : tokens ≠ []) (c : Char) (more : List Text) :
    push c (tokens ++ more) = push c tokens ++ more := by
  obtain ⟨t, ts, rfl⟩ := List.exists_cons_of_ne_nil h
  rfl

/-- How many characters the tokens hold. -/
def tokenChars (tokens : List Text) : ℕ := tokens.flatten.length

theorem tokenChars_push (c : Char) (tokens : List Text) :
    tokenChars (push c tokens) = tokenChars tokens + 1 := by
  cases tokens with
  | nil => rfl
  | cons t ts =>
    simp only [tokenChars, push, List.flatten_cons, List.length_append, List.length_cons]
    omega

/-- One more character of a run: `front` puts it in front of the tokens behind it. -/
structure RunStep (mode run : PayloadMode) (c : Char) (mode' run' : PayloadMode)
    (front : List Text → List Text) : Prop where
  inRun : InRun mode' run'
  apart : ∀ t, standsApartFrom 0 run (c :: t) = standsApartFrom 0 run' t
  tokens : ∀ t, tokensFrom mode (c :: t) = front (tokensFrom mode' t)
  append : ∀ t more, front (tokensFrom mode' t ++ more) = front (tokensFrom mode' t) ++ more
  length : ∀ tokens, tokenChars (front tokens) = tokenChars tokens + 1

theorem InRun.step {mode run : PayloadMode} (h : InRun mode run) {c : Char}
    (hc : isSpace c = false) : ∃ mode' run' front, RunStep mode run c mode' run' front := by
  have hpush : ∀ {mode'}, mode' ≠ .between → ∀ t more,
      push c (tokensFrom mode' t ++ more) = push c (tokensFrom mode' t) ++ more :=
    fun hmode t more => push_append (tokensFrom_ne_nil hmode t) c more
  cases h with
  | between =>
    by_cases hquote : c = '"'
    · subst hquote
      refine ⟨.quoted, .quoted, push '"', .quoted, fun t => ?_, fun t => ?_, hpush (by decide),
        tokenChars_push '"'⟩
      · simp [standsApartFrom, hc]
      · simp [tokensFrom, hc]
    · refine ⟨.word, .word, push c, .word, fun t => ?_, fun t => ?_, hpush (by decide),
        tokenChars_push c⟩
      · simp [standsApartFrom, hc, hquote]
      · simp [tokensFrom, hc, hquote]
  | word =>
    by_cases hquote : c = '"'
    · subst hquote
      refine ⟨.quoted, .quoted, fun tokens => [] :: push '"' tokens, .quoted, fun t => ?_,
        fun t => ?_, fun t more => ?_, fun tokens => ?_⟩
      · simp [standsApartFrom, hc]
      · simp [tokensFrom, hc]
      · rw [hpush (by decide), List.cons_append]
      · exact tokenChars_push '"' tokens
    · refine ⟨.word, .word, push c, .word, fun t => ?_, fun t => ?_, hpush (by decide),
        tokenChars_push c⟩
      · simp [standsApartFrom, hc, hquote]
      · simp [tokensFrom, hc, hquote]
  | quoted =>
    by_cases hquote : c = '"'
    · subst hquote
      refine ⟨.between, .word, fun tokens => push '"' ([] :: tokens), .between,
        fun t => ?_, fun t => ?_, fun t more => rfl, fun tokens => ?_⟩
      · simp [standsApartFrom, hc]
      · simp [tokensFrom]
      · exact tokenChars_push '"' ([] :: tokens)
    · by_cases hslash : c = '\\'
      · subst hslash
        refine ⟨.escaped, .escaped, push '\\', .escaped, fun t => ?_, fun t => ?_,
          hpush (by decide), tokenChars_push '\\'⟩
        · simp [standsApartFrom, hc]
        · simp [tokensFrom]
      · refine ⟨.quoted, .quoted, push c, .quoted, fun t => ?_, fun t => ?_, hpush (by decide),
          tokenChars_push c⟩
        · simp [standsApartFrom, hc, hquote, hslash]
        · simp [tokensFrom, hquote, hslash]
  | escaped =>
    refine ⟨.quoted, .quoted, push c, .quoted, fun t => ?_, fun t => ?_, hpush (by decide),
      tokenChars_push c⟩
    · simp [standsApartFrom, hc]
    · simp [tokensFrom]

/-- Behind a run whose strings are closed in it the reader stands between two tokens. -/
theorem tokensFrom_run {mode run : PayloadMode} (h : InRun mode run) {w rest : Text}
    (hw : ∀ c ∈ w, isSpace c = false) (hrest : EndsRun rest) :
    standsApartFrom 0 run (w ++ rest) =
        (standsApartFrom 0 run w && standsApartFrom 0 .between rest) ∧
      (standsApartFrom 0 run w = true →
        tokensFrom mode (w ++ rest) = tokensFrom mode w ++ tokensFrom .between rest) := by
  induction w generalizing mode run with
  | nil =>
    rcases rest with _ | ⟨c, rest⟩
    · cases h <;> simp [standsApartFrom, tokensFrom]
    · have hc : isSpace c = true := hrest c rfl
      cases h <;> simp [standsApartFrom, tokensFrom, hc]
  | cons c w ih =>
    obtain ⟨hc, hw⟩ := List.forall_mem_cons.1 hw
    obtain ⟨mode', run', front, hstep⟩ := h.step hc
    obtain ⟨hapart, htokens⟩ := ih hstep.inRun hw
    rw [List.cons_append, hstep.apart, hstep.apart, hapart]
    refine ⟨rfl, fun hclosed => ?_⟩
    rw [hstep.tokens, hstep.tokens, htokens hclosed, hstep.append]

/-- Behind a run that ends in a string the white space belongs to that string. -/
theorem tokenChars_run {mode run : PayloadMode} (h : InRun mode run) {w : Text}
    (hw : ∀ c ∈ w, isSpace c = false) (hopen : standsApartFrom 0 run w = false) :
    tokenChars (tokensFrom mode (w ++ [' '])) = tokenChars (tokensFrom mode w) + 1 ∧
      ∀ c rest, isSpace c = true → tokenChars (tokensFrom mode (w ++ c :: ' ' :: rest)) =
        tokenChars (tokensFrom mode (w ++ c :: rest)) + 1 := by
  induction w generalizing mode run with
  | nil =>
    cases h with
    | between | word => cases hopen
    | quoted =>
      refine ⟨rfl, fun c rest hc => ?_⟩
      have hquote : c ≠ '"' := by rintro rfl; cases hc
      have hslash : c ≠ '\\' := by rintro rfl; cases hc
      simp [tokensFrom, tokenChars_push, hquote, hslash]
    | escaped =>
      refine ⟨rfl, fun c rest hc => ?_⟩
      simp [tokensFrom, tokenChars_push]
  | cons c w ih =>
    obtain ⟨hc, hw⟩ := List.forall_mem_cons.1 hw
    obtain ⟨mode', run', front, hstep⟩ := h.step hc
    rw [hstep.apart] at hopen
    obtain ⟨hend, hmiddle⟩ := ih hstep.inRun hw hopen
    refine ⟨?_, fun d rest hd => ?_⟩
    · rw [List.cons_append, hstep.tokens, hstep.tokens, hstep.length, hstep.length, hend]
    · rw [List.cons_append, List.cons_append, hstep.tokens, hstep.tokens, hstep.length,
        hstep.length, hmiddle d rest hd]

/-! ### The first match -/

/-- How a payload that begins with no white space goes on: with a string that is a match, or
with a run that is one. -/
inductive FirstMatch : Text → Text → Text → Prop
  | string {body rest : Text} (h : quotedLength '"' body = some body.length) :
      FirstMatch ('"' :: (body ++ rest)) ('"' :: body) rest
  | run {c : Char} {body rest : Text} (hw : ∀ d ∈ c :: body, isSpace d = false)
      (hrest : EndsRun rest) (h : c = '"' → quotedLength '"' (body ++ rest) = none) :
      FirstMatch (c :: (body ++ rest)) (c :: body) rest

theorem exists_firstMatch {c : Char} {cs : Text} (hc : isSpace c = false) :
    ∃ word rest, FirstMatch (c :: cs) word rest := by
  rcases hlength : (if c = '"' then quotedLength '"' cs else none) with _ | n
  · have hsplit := List.takeWhile_append_dropWhile (p := fun d => !isSpace d) (l := cs)
    refine ⟨c :: cs.takeWhile fun d => !isSpace d, cs.dropWhile fun d => !isSpace d, ?_⟩
    have hrun : FirstMatch (c :: (cs.takeWhile (fun d => !isSpace d) ++
        cs.dropWhile fun d => !isSpace d)) _ _ := .run (fun d hd => ?_) (fun d hd => ?_) ?_
    · rwa [hsplit] at hrun
    · rcases List.mem_cons.1 hd with rfl | hd
      · exact hc
      · simpa using List.mem_takeWhile_imp hd
    · have hfirst := List.head?_dropWhile_not (fun d => !isSpace d) cs
      rw [Option.mem_def.1 hd] at hfirst
      exact (Bool.not_eq_false' ..).mp hfirst
    · rintro rfl
      rw [hsplit]
      simpa using hlength
  · split_ifs at hlength with hquote
    subst hquote
    obtain ⟨hle, htake⟩ := quotedLength_take hlength
    have hwhole := htake []
    rw [List.append_nil] at hwhole
    refine ⟨'"' :: cs.take n, cs.drop n, ?_⟩
    have hstring : FirstMatch ('"' :: (cs.take n ++ cs.drop n)) _ _ :=
      .string (by rw [hwhole, List.length_take, min_eq_left hle])
    rwa [List.take_append_drop] at hstring

theorem takeWhile_run {body rest : Text} (hw : ∀ d ∈ body, isSpace d = false)
    (hrest : EndsRun rest) : (body ++ rest).takeWhile (fun d => !isSpace d) = body := by
  rw [List.takeWhile_append_of_pos (by simpa using hw)]
  rcases rest with _ | ⟨d, rest⟩
  · simp
  · rw [List.takeWhile_cons_of_neg (by simpa using hrest d rfl), List.append_nil]

theorem quotedLength_whole {body : Text} (h : quotedLength '"' body = some body.length)
    (rest : Text) : quotedLength '"' (body ++ rest) = some body.length := by
  simpa using (quotedLength_take h).2 rest

/-- The first match of `canonical_payload`, and the matches behind it. -/
theorem FirstMatch.canonical {t word rest : Text} (h : FirstMatch t word rest) :
    canonicalFrom 0 t = word :: canonicalFrom 0 rest := by
  cases h with
  | @string body rest h =>
    rw [canonicalFrom, if_neg (by decide), if_pos rfl, quotedLength_whole h rest]
    dsimp only
    rw [canonicalFrom_drop, List.take_left, List.drop_left]
  | @run c body rest hw hrest h =>
    obtain ⟨hc, hw⟩ := List.forall_mem_cons.1 hw
    have hnone : (if c = '"' then quotedLength '"' (body ++ rest) else none) = none := by
      split_ifs with hquote
      · exact h hquote
      · rfl
    rw [canonicalFrom, if_neg (by simp [hc]), hnone]
    dsimp only
    rw [takeWhile_run hw hrest, canonicalFrom_drop, List.take_left, List.drop_left]

theorem standsApartFrom_skip (n : ℕ) (t : Text) :
    standsApartFrom n .between t = standsApartFrom 0 .between (t.drop n) := by
  induction n generalizing t with
  | zero => rw [List.drop_zero]
  | succ n ih =>
    rcases t with _ | ⟨c, t⟩
    · simp [standsApartFrom]
    · rw [standsApartFrom, ih, List.drop_succ_cons]

/-- A run and its first character, read as the inside of a run. -/
theorem standsApartFrom_run {c : Char} {cs : Text} (hc : isSpace c = false)
    (h : c = '"' → quotedLength '"' cs = none) :
    standsApartFrom 0 .between (c :: cs) = standsApartFrom 0 .word (c :: cs) := by
  by_cases hquote : c = '"'
  · subst hquote
    simp [standsApartFrom, hc, h rfl]
  · simp [standsApartFrom, hc, hquote]

theorem quotedLength_of_append {body rest : Text} (h : quotedLength '"' (body ++ rest) = none) :
    quotedLength '"' body = none := by
  by_contra hbody
  obtain ⟨n, hn⟩ := Option.ne_none_iff_exists'.1 hbody
  obtain ⟨hle, htake⟩ := quotedLength_take hn
  have hsome := htake (body.drop n ++ rest)
  rw [← List.append_assoc, List.take_append_drop, h] at hsome
  cases hsome

/-- **A match is read by itself** where its strings are closed in it. -/
theorem FirstMatch.tokens {t word rest : Text} (h : FirstMatch t word rest) :
    standsApart t = (standsApart word && standsApart rest) ∧
      (standsApart word = true →
        payloadTokens t = payloadTokens word ++ payloadTokens rest) := by
  unfold standsApart payloadTokens
  cases h with
  | @string body rest h =>
    have hread : ∀ u, standsApartFrom 0 .between ('"' :: (body ++ u)) =
        standsApartFrom 0 .between u ∧
        tokensFrom .between ('"' :: (body ++ u)) = ('"' :: body) :: tokensFrom .between u := by
      intro u
      have hlength := quotedLength_whole h u
      refine ⟨?_, ?_⟩
      · rw [standsApartFrom, if_neg (by decide), if_pos rfl, hlength]
        dsimp only
        rw [standsApartFrom_skip, List.drop_left]
      · rw [tokensFrom, if_neg (by decide), if_pos rfl,
          tokensFrom_quoted_of_quotedLength hlength, List.take_left, List.drop_left]
        rfl
    have hword := hread []
    rw [List.append_nil] at hword
    rw [(hread rest).1, (hread rest).2, hword.1, hword.2]
    exact ⟨rfl, fun _ => rfl⟩
  | @run c body rest hw hrest h =>
    obtain ⟨hc, -⟩ := List.forall_mem_cons.1 hw
    obtain ⟨hapart, htokens⟩ := tokensFrom_run .between hw hrest
    rw [List.cons_append] at hapart htokens
    rw [standsApartFrom_run hc h,
      standsApartFrom_run hc fun hquote => quotedLength_of_append (h hquote)]
    exact ⟨hapart, htokens⟩

/-- A payload is white space, or white space before a first match. -/
theorem spaces_or_firstMatch (t : Text) : (∀ c ∈ t, isSpace c = true) ∨
    ∃ spaces u word rest, t = spaces ++ u ∧ (∀ c ∈ spaces, isSpace c = true) ∧
      FirstMatch u word rest := by
  induction t with
  | nil => exact .inl nofun
  | cons c t ih =>
    rcases hc : isSpace c with _ | _
    · obtain ⟨word, rest, hmatch⟩ : ∃ word rest, FirstMatch (c :: t) word rest :=
        exists_firstMatch hc
      exact .inr ⟨[], c :: t, word, rest, rfl, nofun, hmatch⟩
    · rcases ih with hall | ⟨spaces, u, word, rest, rfl, hspaces, hmatch⟩
      · exact .inl (List.forall_mem_cons.2 ⟨hc, hall⟩)
      · exact .inr ⟨c :: spaces, u, word, rest, rfl, List.forall_mem_cons.2 ⟨hc, hspaces⟩, hmatch⟩

/-- White space in front of a payload counts for nothing. -/
theorem spaces_append {spaces : Text} (h : ∀ c ∈ spaces, isSpace c = true) (t : Text) :
    canonicalFrom 0 (spaces ++ t) = canonicalFrom 0 t ∧
      standsApart (spaces ++ t) = standsApart t ∧
      payloadTokens (spaces ++ t) = payloadTokens t := by
  induction spaces with
  | nil => exact ⟨rfl, rfl, rfl⟩
  | cons c spaces ih =>
    obtain ⟨hc, hspaces⟩ := List.forall_mem_cons.1 h
    unfold standsApart payloadTokens at ih ⊢
    rw [List.cons_append, canonicalFrom, standsApartFrom, tokensFrom, if_pos hc, if_pos hc,
      if_pos hc]
    exact ih hspaces

theorem FirstMatch.length_lt {t word rest : Text} (h : FirstMatch t word rest) :
    rest.length < t.length := by
  cases h <;>
    · simp only [List.length_cons, List.length_append]
      omega

/-- **One canonical payload, the same tokens**, where every string stands apart. -/
theorem payloadTokens_eq {a b : Text} (ha : standsApart a = true)
    (h : canonicalFrom 0 a = canonicalFrom 0 b) : payloadTokens a = payloadTokens b := by
  induction hn : a.length using Nat.strong_induction_on generalizing a b with
  | _ n ih =>
    rcases spaces_or_firstMatch a with hall | ⟨spaces, u, word, rest, rfl, hspaces, hmatch⟩
    · rw [canonicalFrom_of_spaces hall] at h
      have hb := (spaces_append (spaces_of_canonicalFrom h.symm) []).2.2
      have ha' := (spaces_append hall []).2.2
      rw [List.append_nil] at ha' hb
      rw [ha', hb]
    · obtain ⟨hcanonical, hapart, htokens⟩ := spaces_append hspaces u
      rw [hapart, hmatch.tokens.1, Bool.and_eq_true] at ha
      rw [hcanonical, hmatch.canonical] at h
      rw [htokens, hmatch.tokens.2 ha.1]
      rcases spaces_or_firstMatch b with hall | ⟨spaces', u', word', rest', rfl, hspaces', hmatch'⟩
      · rw [canonicalFrom_of_spaces hall] at h
        cases h
      · obtain ⟨hcanonical', -, htokens'⟩ := spaces_append hspaces' u'
        rw [hcanonical', hmatch'.canonical] at h
        obtain ⟨rfl, hrest⟩ := List.cons.inj h
        rw [htokens', hmatch'.tokens.2 ha.1]
        have hlt := hmatch.length_lt
        rw [ih rest.length (by rw [List.length_append] at hn; omega) ha.2 hrest rfl]

/-! ### Payloads that are blurred -/

theorem ne_of_isSpace {c : Char} (hc : isSpace c = true) : c ≠ '"' ∧ c ≠ '\\' := by
  constructor <;> (rintro rfl; cases hc)

/-- A string within a run of characters ends there if it holds no white space. -/
theorem quotedLength_of_standsApartFrom {t : Text}
    (h : standsApartFrom 0 .quoted t = true) : quotedLength '"' t ≠ none := by
  induction t using quotedLength_induction with
  | nil | lone => cases h
  | escape c cs ih =>
    have hspace : isSpace '\\' = false := by decide
    simp only [standsApartFrom, hspace, Bool.not_false, Bool.true_and, if_pos,
      if_neg (show ¬ '\\' = '"' by decide), Bool.and_eq_true, Bool.not_eq_true'] at h
    have hc : c ≠ '\n' := by rintro rfl; cases h.1
    rw [quotedLength_escape, if_neg hc]
    simpa using ih h.2
  | char c cs hslash ih =>
    rw [quotedLength_char hslash]
    split_ifs with hquote
    · exact Option.some_ne_none 1
    · simp only [standsApartFrom, if_neg hquote, if_neg hslash, Bool.and_eq_true] at h
      simpa using ih h.2

/-- Doubled white space closes no string. -/
theorem quotedLength_doubled {u rest : Text} {s : Char} (hs : isSpace s = true)
    (h : quotedLength '"' (u ++ s :: rest) = none) :
    quotedLength '"' (u ++ s :: ' ' :: rest) = none := by
  obtain ⟨hquote, hslash⟩ := ne_of_isSpace hs
  have hblank : ∀ t, quotedLength '"' (' ' :: t) = (quotedLength '"' t).map (· + 1) := fun t => by
    rw [quotedLength_char (by decide), if_neg (by decide)]
  induction u using quotedLength_induction with
  | nil =>
    rw [List.nil_append, quotedLength_char hslash, if_neg hquote, Option.map_eq_none_iff] at h ⊢
    rw [hblank, h]
    rfl
  | lone =>
    simp only [List.cons_append, List.nil_append, quotedLength_escape] at h ⊢
    split_ifs at h ⊢ with hbreak
    · rfl
    · rw [Option.map_eq_none_iff] at h ⊢
      rw [hblank, h]
      rfl
  | escape c cs ih =>
    simp only [List.cons_append, quotedLength_escape] at h ⊢
    split_ifs at h ⊢ with hbreak
    · rfl
    · rw [Option.map_eq_none_iff] at h ⊢
      exact ih h
  | char c cs hc ih =>
    rw [List.cons_append, quotedLength_char hc] at h ⊢
    split_ifs at h ⊢ with hclose
    rw [Option.map_eq_none_iff] at h ⊢
    exact ih h

theorem quotedLength_append_blank {u : Text} (h : quotedLength '"' u = none) :
    quotedLength '"' (u ++ [' ']) = none := by
  induction u using quotedLength_induction with
  | nil | lone => rfl
  | escape c cs ih =>
    simp only [List.cons_append, quotedLength_escape] at h ⊢
    split_ifs at h ⊢ with hbreak
    · rfl
    · rw [Option.map_eq_none_iff] at h ⊢
      exact ih h
  | char c cs hc ih =>
    rw [List.cons_append, quotedLength_char hc] at *
    split_ifs at h ⊢ with hclose
    rw [Option.map_eq_none_iff] at h ⊢
    exact ih h

theorem tokenChars_append (tokens more : List Text) :
    tokenChars (tokens ++ more) = tokenChars tokens + tokenChars more := by
  rw [tokenChars, List.flatten_append, List.length_append, ← tokenChars, ← tokenChars]

theorem standsApart_string {body : Text} (h : quotedLength '"' body = some body.length) :
    standsApart ('"' :: body) = true := by
  rw [standsApart, standsApartFrom, if_neg (by decide), if_pos rfl, h]
  dsimp only
  rw [standsApartFrom_skip, List.drop_length]
  rfl

theorem FirstMatch.head {t word rest : Text} (h : FirstMatch t word rest) :
    ∀ c ∈ t.head?, isSpace c = false := by
  cases h with
  | string =>
    rintro c ⟨⟩
    decide
  | run hw =>
    rintro c ⟨⟩
    exact hw _ List.mem_cons_self

/-- What blurs a payload: another one with the same canonical payload whose strings hold one
character more. -/
structure Blurs (a b : Text) : Prop where
  canonical : canonicalFrom 0 b = canonicalFrom 0 a
  longer : tokenChars (payloadTokens b) = tokenChars (payloadTokens a) + 1
  first : ∀ c ∈ a.head?, isSpace c = true → b.head? = some c

/-- White space in a string of a run is cut away, so it can be doubled. -/
theorem FirstMatch.blurs_word {t word rest : Text} (h : FirstMatch t word rest)
    (hword : standsApart word = false) : ∃ v, canonicalFrom 0 v = canonicalFrom 0 t ∧
      tokenChars (payloadTokens v) = tokenChars (payloadTokens t) + 1 := by
  have hcanonical := h.canonical
  cases h with
  | string h =>
    rw [standsApart_string h] at hword
    cases hword
  | @run c body rest hw hrest h =>
    obtain ⟨hc, -⟩ := List.forall_mem_cons.1 hw
    have hopen : standsApartFrom 0 .word (c :: body) = false := by
      rwa [standsApart, standsApartFrom_run hc fun hquote => quotedLength_of_append (h hquote)]
        at hword
    obtain ⟨hend, hmiddle⟩ := tokenChars_run .between hw hopen
    rcases rest with _ | ⟨s, rest⟩
    · rw [List.append_nil] at hcanonical h ⊢
      have hmatch : FirstMatch (c :: (body ++ [' '])) (c :: body) [' '] :=
        .run hw (by rintro d ⟨⟩; decide) fun hquote => quotedLength_append_blank (h hquote)
      refine ⟨_, ?_, hend⟩
      rw [List.cons_append, hmatch.canonical, hcanonical]
      rfl
    · have hs : isSpace s = true := hrest s rfl
      have hmatch : FirstMatch (c :: (body ++ s :: ' ' :: rest)) (c :: body) (s :: ' ' :: rest) :=
        .run hw (by rintro d ⟨⟩; exact hs) fun hquote => quotedLength_doubled hs (h hquote)
      refine ⟨_, ?_, hmiddle s rest hs⟩
      have hblank : isSpace ' ' = true := by decide
      rw [List.cons_append, hmatch.canonical, hcanonical, canonicalFrom, canonicalFrom,
        canonicalFrom, if_pos hs, if_pos hs, if_pos hblank]

/-- What follows a match may be replaced, as long as it ends the run as well. -/
theorem FirstMatch.replace {t word rest rest' : Text} (h : FirstMatch t word rest)
    (hword : standsApart word = true) (hrest : standsApart rest = false)
    (hfirst : ∀ c ∈ rest.head?, isSpace c = true → rest'.head? = some c) :
    FirstMatch (word ++ rest') word rest' := by
  cases h with
  | string h => exact .string h
  | @run c body rest hw hends h =>
    obtain ⟨hc, -⟩ := List.forall_mem_cons.1 hw
    refine .run hw (fun d hd => ?_) (fun hquote => ?_)
    · rcases rest with _ | ⟨s, rest⟩
      · cases hrest
      · have hs : isSpace s = true := hends s rfl
        rw [hfirst s rfl hs] at hd
        exact Option.some.inj hd ▸ hs
    · -- a run that begins with a quote would be a string if it closed it
      have hnone := quotedLength_of_append (h hquote)
      subst hquote
      rw [standsApart, standsApartFrom, if_neg (by decide), if_pos rfl, hnone] at hword
      exact absurd hnone (quotedLength_of_standsApartFrom hword)

/-- **In a payload with a string that does not stand apart white space is lost.** -/
theorem exists_blurs {a : Text} (ha : standsApart a = false) : ∃ b, Blurs a b := by
  induction hn : a.length using Nat.strong_induction_on generalizing a with
  | _ n ih =>
    rcases spaces_or_firstMatch a with hall | ⟨spaces, u, word, rest, rfl, hspaces, hmatch⟩
    · have hblank := (spaces_append hall []).2.1
      rw [List.append_nil, ha] at hblank
      cases hblank
    · obtain ⟨hcanonical, hapart, htokens⟩ := spaces_append hspaces u
      rw [hapart, hmatch.tokens.1] at ha
      have hlt := hmatch.length_lt
      rw [List.length_append] at hn
      suffices hu : ∃ v, canonicalFrom 0 v = canonicalFrom 0 u ∧
          tokenChars (payloadTokens v) = tokenChars (payloadTokens u) + 1 by
        obtain ⟨v, hv, hlonger⟩ := hu
        obtain ⟨hcanonical', -, htokens'⟩ := spaces_append hspaces v
        refine ⟨spaces ++ v, ⟨by rw [hcanonical', hv, hcanonical],
          by rw [htokens', hlonger, htokens], fun c hc hspace => ?_⟩⟩
        rcases spaces with _ | ⟨d, spaces⟩
        · rw [hmatch.head c hc] at hspace
          cases hspace
        · exact hc
      rcases hword : standsApart word with _ | _
      · exact hmatch.blurs_word hword
      · rw [hword, Bool.true_and] at ha
        obtain ⟨v, hv⟩ := ih rest.length (by omega) ha rfl
        have hnext := hmatch.replace hword ha hv.first
        refine ⟨word ++ v, by rw [hnext.canonical, hmatch.canonical, hv.canonical], ?_⟩
        rw [hnext.tokens.2 hword, hmatch.tokens.2 hword, tokenChars_append, tokenChars_append,
          hv.longer]
        omega

/-! ### Which payloads are compared as their tokens are -/

/-- **The canonical payload tells the tokens apart exactly where every string stands apart.**
Then payloads with the same canonical payload have the same tokens, the quoted strings among
them; otherwise white space of a string can be doubled without a trace. -/
theorem canonicalPayload_faithful_iff (a : Text) :
    (∀ b, canonicalPayload (some a) = canonicalPayload (some b) →
      payloadTokens a = payloadTokens b ∧ quotedStrings a = quotedStrings b) ↔
      standsApart a = true := by
  constructor
  · intro h
    by_contra ha
    obtain ⟨b, hb⟩ := exists_blurs (Bool.eq_false_iff.2 ha)
    have heq := (h b (congrArg some hb.canonical.symm)).1
    have hlonger := hb.longer
    rw [heq] at hlonger
    omega
  · intro ha b h
    have htokens := payloadTokens_eq ha (Option.some.inj h)
    refine ⟨htokens, ?_⟩
    rw [quotedStrings, quotedStrings, htokens]

/-- A string behind a parenthesis is cut at its white space. -/
theorem canonicalPayload_cuts :
    ¬ ∀ a b, canonicalPayload (some a) = canonicalPayload (some b) →
      payloadTokens a = payloadTokens b ∧ quotedStrings a = quotedStrings b := by
  intro h
  have hstrings := (h "(\x22a b\x22)".toList "(\x22a  b\x22)".toList (by decide)).2
  revert hstrings
  decide

end Contracts
end OpenFoamAgent
