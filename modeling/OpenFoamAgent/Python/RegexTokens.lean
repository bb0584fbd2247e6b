/-
# Patterns of words, white space and a value

A pattern that goes through literal words and white space and captures one run of
characters is deterministic up to the white space it gives back: where no token starts
with white space, only the longest run of it counts. So such a pattern finds the first
place of a text where a plain reader succeeds (`searchFrom_eq_findSome?`,
`search_eq_firstAtLine`), and what it captures is what the reader gives.
-/
import OpenFoamAgent.Python.Regex

namespace OpenFoamAgent
namespace Python

namespace Pattern

/-! ### Runs of a class -/

theorem run_star_one_nil (f : Char → Bool) {s : Cursor} (h : s.ahead = []) :
    (star (one f)).run s = [s] := by
  rw [run, h]
  rfl

theorem run_star_one_cons (f : Char → Bool) {s : Cursor} {c : Char} {cs : Text}
    (h : s.ahead = c :: cs) : (star (one f)).run s =
      (if f c then (star (one f)).run { s with behind := some c, ahead := cs } else []) ++ [s] := by
  rw [run, h, List.length_cons, repeated]
  by_cases hc : f c = true
  · rw [if_pos hc, run, h]
    dsimp only
    rw [if_pos hc]
    simp [run]
  · rw [if_neg hc, run, h]
    dsimp only
    rw [if_neg hc]
    rfl

/-- The longest run of a class comes first; a shorter one stops in front of the class. -/
theorem run_star_one (f : Char → Bool) (s : Cursor) : ∃ m others,
    (star (one f)).run s = m :: others ∧ m.ahead = s.ahead.dropWhile f ∧ m.groups = s.groups ∧
      ∀ s' ∈ others, ∃ c ∈ s'.ahead.head?, f c = true := by
  obtain ⟨behind, ahead, groups⟩ := s
  induction ahead generalizing behind with
  | nil => exact ⟨_, [], run_star_one_nil f rfl, rfl, rfl, fun _ h => by cases h⟩
  | cons c cs ih =>
    rw [run_star_one_cons f rfl]
    by_cases hc : f c = true
    · obtain ⟨m, others, hrun, hahead, hgroups, hothers⟩ := ih (some c)
      rw [if_pos hc, hrun]
      refine ⟨m, others ++ [_], rfl, ?_, hgroups, fun s' hs' => ?_⟩
      · rw [hahead, List.dropWhile_cons_of_pos hc]
      · rcases List.mem_append.1 hs' with hs' | hs'
        · exact hothers s' hs'
        · obtain rfl := List.mem_singleton.1 hs'
          exact ⟨c, rfl, hc⟩
    · rw [if_neg hc]
      refine ⟨_, [], rfl, ?_, rfl, fun _ h => by cases h⟩
      rw [List.dropWhile_cons_of_neg hc]

/-- The pattern does not match in front of a class. -/
def Refuses (q : Pattern) (f : Char → Bool) : Prop :=
  ∀ s : Cursor, (∃ c ∈ s.ahead.head?, f c = true) → q.run s = []

/-- A run of a class in front of a pattern that refuses the class gives nothing back. -/
theorem run_seq_star_one {f : Char → Bool} {q : Pattern} (hq : q.Refuses f) (s : Cursor) :
    ∃ m : Cursor, (seq (star (one f)) q).run s = q.run m ∧ m.ahead = s.ahead.dropWhile f ∧
      m.groups = s.groups := by
  obtain ⟨m, others, hrun, hahead, hgroups, hothers⟩ := run_star_one f s
  refine ⟨m, ?_, hahead, hgroups⟩
  have hnil : others.flatMap q.run = [] :=
    List.flatMap_eq_nil_iff.2 fun s' hs' => hq s' (hothers s' hs')
  rw [run, hrun, List.flatMap_cons, hnil, List.append_nil]

/-! ### Words -/

/-- The text behind one character of each of some classes. -/
def eat : List (Char → Bool) → Text → Option Text
  | [], t => some t
  | _ :: _, [] => none
  | f :: fs, c :: cs => if f c then eat fs cs else none

theorem run_ones (fs : List (Char → Bool)) (s : Cursor) :
    (eat fs s.ahead = none → (all (fs.map one)).run s = []) ∧
      ∀ rest, eat fs s.ahead = some rest → ∃ m : Cursor, (all (fs.map one)).run s = [m] ∧
        m.ahead = rest ∧ m.groups = s.groups := by
  obtain ⟨behind, ahead, groups⟩ := s
  induction fs generalizing behind ahead with
  | nil =>
    constructor
    · intro h
      cases h
    · intro rest h
      exact ⟨_, rfl, Option.some.inj h, rfl⟩
  | cons f fs ih =>
    have hall : all ((f :: fs).map one) = seq (one f) (all (fs.map one)) := rfl
    rw [hall, run]
    cases ahead with
    | nil => exact ⟨fun _ => rfl, fun rest h => by cases h⟩
    | cons c cs =>
      by_cases hc : f c = true
      · have heat : eat (f :: fs) (c :: cs) = eat fs cs := by rw [eat, if_pos hc]
        have hone : (one f).run ⟨behind, c :: cs, groups⟩ = [⟨some c, cs, groups⟩] := by
          rw [run]
          dsimp only
          rw [if_pos hc]
        rw [heat, hone, List.flatMap_singleton]
        exact ih (some c) cs
      · have heat : eat (f :: fs) (c :: cs) = none := by rw [eat, if_neg hc]
        have hone : (one f).run ⟨behind, c :: cs, groups⟩ = [] := by
          rw [run]
          dsimp only
          rw [if_neg hc]
        rw [heat, hone]
        exact ⟨fun _ => rfl, fun rest h => by cases h⟩

/-- Words in front of a separator that they do not hold. -/
theorem eat_append {fs : List (Char → Bool)} {c : Char} (hfs : ∀ f ∈ fs, f c = false)
    (t u : Text) : eat fs (t ++ c :: u) = (eat fs t).map (· ++ c :: u) := by
  induction fs generalizing t with
  | nil => rfl
  | cons f fs ih =>
    rw [List.forall_mem_cons] at hfs
    cases t with
    | nil => simp [eat, hfs.1]
    | cons d ds =>
      rw [List.cons_append, eat, eat]
      split_ifs
      · exact ih hfs.2 ds
      · rfl

theorem eat_suffix {fs : List (Char → Bool)} {t rest : Text} (h : eat fs t = some rest) :
    rest <:+ t := by
  induction fs generalizing t with
  | nil =>
    obtain rfl := Option.some.inj h
    exact List.suffix_rfl
  | cons f fs ih =>
    cases t with
    | nil => cases h
    | cons c cs =>
      rw [eat] at h
      split_ifs at h
      exact (ih h).trans (List.suffix_cons c cs)

/-- The classes of a word under `re.IGNORECASE`. -/
def wordClasses (w : String) : List (Char → Bool) :=
  w.toList.map fun a c => ignoreCase c == ignoreCase a

theorem word_eq (w : String) : word w = all ((wordClasses w).map one) := by
  rw [word, wordClasses, List.map_map]
  rfl

/-- The classes of a literal text. -/
def exactClasses (w : String) : List (Char → Bool) := w.toList.map fun a c => c == a

theorem exactly_eq (w : String) : exactly w = all ((exactClasses w).map one) := by
  rw [exactly, exactClasses, List.map_map]
  rfl

/-- White space is compared as it is. -/
theorem ignoreCase_of_isSpace {c : Char} (h : isSpace c = true) : ignoreCase c = c := by
  simp only [isSpace, Bool.or_eq_true, Bool.and_eq_true, decide_eq_true_eq, beq_iff_eq] at h
  rw [ignoreCase, if_neg (by omega), if_neg (by omega), if_neg (by omega), asciiLower, if_neg]
  rintro hupper
  rw [Bool.and_eq_true, decide_eq_true_iff, decide_eq_true_iff] at hupper
  have hlow : 65 ≤ c.toNat := hupper.1
  have hhigh : c.toNat ≤ 90 := hupper.2
  omega

/-- Some classes of which the first holds no white space. -/
def Dark (fs : List (Char → Bool)) : Prop :=
  ∃ f fs', fs = f :: fs' ∧ ∀ c, isSpace c = true → f c = false

theorem dark_word {w : String} (hw : w.toList.head?.any (fun a => !isSpace (ignoreCase a)) = true) :
    Dark (wordClasses w) := by
  cases hlist : w.toList with
  | nil =>
    rw [hlist] at hw
    cases hw
  | cons a as =>
    refine ⟨_, _, by rw [wordClasses, hlist, List.map_cons], fun c hc => ?_⟩
    rw [hlist] at hw
    have hdark : isSpace (ignoreCase a) = false := by simpa using hw
    rw [ignoreCase_of_isSpace hc, beq_eq_false_iff_ne]
    rintro rfl
    rw [hc] at hdark
    cases hdark

theorem dark_exact {w : String} (hw : w.toList.head?.any (fun a => !isSpace a) = true) :
    Dark (exactClasses w) := by
  cases hlist : w.toList with
  | nil =>
    rw [hlist] at hw
    cases hw
  | cons a as =>
    refine ⟨_, _, by rw [exactClasses, hlist, List.map_cons], fun c hc => ?_⟩
    rw [hlist] at hw
    have hdark : isSpace a = false := by simpa using hw
    rw [beq_eq_false_iff_ne]
    rintro rfl
    rw [hc] at hdark
    cases hdark

theorem refuses_ones {fs : List (Char → Bool)} (hfs : Dark fs) (q : Pattern) :
    (seq (all (fs.map one)) q).Refuses isSpace := by
  rintro s ⟨c, hc, hspace⟩
  obtain ⟨f, fs', rfl, hf⟩ := hfs
  have heat : eat (f :: fs') s.ahead = none := by
    cases hahead : s.ahead with
    | nil => rfl
    | cons d ds =>
      rw [hahead] at hc
      obtain rfl : d = c := Option.some.inj hc
      rw [eat, if_neg (by simp [hf d hspace])]
  rw [run, (run_ones _ s).1 heat]
  rfl

/-! ### Values -/

/-- A run of a class, captured. -/
def value (f : Char → Bool) : Pattern := group "value" (plus (one f))

/-- The value that a match captured. -/
def captured (m : Cursor) : Text := (m.group "value").getD []

/-- The longest run comes first; behind a shorter one stands the class. -/
theorem run_value (f : Char → Bool) (s : Cursor) :
    (s.ahead.takeWhile f = [] → (value f).run s = []) ∧
      (s.ahead.takeWhile f ≠ [] → ∃ m others, (value f).run s = m :: others ∧
        m.ahead = s.ahead.dropWhile f ∧ captured m = s.ahead.takeWhile f ∧
          ∀ s' ∈ others, ∃ c ∈ s'.ahead.head?, f c = true) := by
  obtain ⟨behind, ahead, groups⟩ := s
  cases ahead with
  | nil => exact ⟨fun _ => rfl, fun h => absurd rfl h⟩
  | cons c cs =>
    dsimp only
    by_cases hc : f c = true
    · rw [List.takeWhile_cons_of_pos hc, List.dropWhile_cons_of_pos hc]
      refine ⟨fun h => absurd h (List.cons_ne_nil c _), fun _ => ?_⟩
      obtain ⟨m, others, hrun, hahead, hgroups, hothers⟩ := run_star_one f ⟨some c, cs, groups⟩
      dsimp only at hahead
      have hone : (one f).run ⟨behind, c :: cs, groups⟩ = [⟨some c, cs, groups⟩] := by
        rw [run]
        dsimp only
        rw [if_pos hc]
      rw [value, run, plus, run, hone, List.flatMap_singleton, hrun, List.map_cons]
      refine ⟨_, _, rfl, hahead, ?_, fun s' hs' => ?_⟩
      · have hread : Cursor.read ⟨behind, c :: cs, groups⟩ m = c :: cs.takeWhile f := by
          have hlength : (c :: cs).length - m.ahead.length = (c :: cs.takeWhile f).length := by
            have hsplit := congrArg List.length (List.takeWhile_append_dropWhile (p := f) (l := cs))
            rw [List.length_append] at hsplit
            rw [hahead, List.length_cons, List.length_cons]
            omega
          rw [Cursor.read, hlength]
          nth_rewrite 2 [← List.takeWhile_append_dropWhile (p := f) (l := cs)]
          rw [← List.cons_append, List.take_left]
        rw [← hread]
        rfl
      · obtain ⟨t, ht, rfl⟩ := List.mem_map.1 hs'
        exact hothers t ht
    · rw [List.takeWhile_cons_of_neg hc]
      refine ⟨fun _ => ?_, fun h => absurd rfl h⟩
      rw [value, run, plus, run, run]
      dsimp only
      rw [if_neg hc]
      rfl

theorem refuses_value {f g : Char → Bool} (hfg : ∀ c, g c = true → f c = false) (q : Pattern) :
    (seq (value f) q).Refuses g := by
  rintro s ⟨c, hc, hg⟩
  have hnil : s.ahead.takeWhile f = [] := by
    cases hahead : s.ahead with
    | nil => rfl
    | cons d ds =>
      rw [hahead] at hc
      obtain rfl : d = c := Option.some.inj hc
      rw [List.takeWhile_cons_of_neg (by simp [hfg d hg])]
  rw [run, (run_value f s).1 hnil]
  rfl

/-! ### Words and a value -/

/-- Some words, with white space behind each, and a value. -/
def summary (words : List String) (f : Char → Bool) : Pattern :=
  all (words.flatMap (fun w => [word w, spaces]) ++ [value f])

/-- The value behind some words. -/
def readSummary (f : Char → Bool) : List String → Text → Option Text
  | [], t => if t.takeWhile f = [] then none else some (t.takeWhile f)
  | w :: ws, t =>
    match eat (wordClasses w) t with
    | some rest => readSummary f ws (rest.dropWhile isSpace)
    | none => none

theorem refuses_summary {words : List String} {f : Char → Bool}
    (hwords : ∀ w ∈ words, Dark (wordClasses w)) (hf : ∀ c, isSpace c = true → f c = false) :
    (summary words f).Refuses isSpace := by
  cases words with
  | nil => exact refuses_value hf empty
  | cons w ws =>
    have hsummary : summary (w :: ws) f =
        seq (all ((wordClasses w).map one)) (seq spaces (summary ws f)) := by
      rw [← word_eq]
      rfl
    rw [hsummary]
    exact refuses_ones (hwords w List.mem_cons_self) _

/-- **What a summary captures.** -/
theorem run_summary {words : List String} {f : Char → Bool}
    (hwords : ∀ w ∈ words, Dark (wordClasses w)) (hf : ∀ c, isSpace c = true → f c = false)
    (s : Cursor) :
    ((summary words f).run s).head?.map captured = readSummary f words s.ahead := by
  induction words generalizing s with
  | nil =>
    have hsummary : summary [] f = seq (value f) empty := rfl
    rw [hsummary, readSummary, run]
    obtain ⟨hnone, hsome⟩ := run_value f s
    by_cases hnil : s.ahead.takeWhile f = []
    · rw [hnone hnil, if_pos hnil]
      rfl
    · obtain ⟨m, others, hrun, -, hgroup, -⟩ := hsome hnil
      rw [if_neg hnil, hrun, List.flatMap_cons, run, List.singleton_append, List.head?_cons,
        Option.map_some, hgroup]
  | cons w ws ih =>
    have hsummary : summary (w :: ws) f = seq (word w) (seq spaces (summary ws f)) := rfl
    rw [List.forall_mem_cons] at hwords
    rw [hsummary, readSummary, run, word_eq]
    obtain ⟨hnone, hsome⟩ := run_ones (wordClasses w) s
    cases heat : eat (wordClasses w) s.ahead with
    | none =>
      rw [hnone heat]
      rfl
    | some rest =>
      obtain ⟨m, hrun, hahead, -⟩ := hsome rest heat
      obtain ⟨m', hrun', hahead', -⟩ :=
        run_seq_star_one (refuses_summary hwords.2 hf) m
      rw [hrun, List.flatMap_singleton, spaces, hrun', ih hwords.2 m', hahead', hahead]

/-! ### Lines -/

/-- `^` under `re.MULTILINE`. -/
def lineStart : Pattern := notBehind (· != '\n')

/-- `$` under `re.MULTILINE`. -/
def lineEnd : Pattern := notAhead (· != '\n')

/-- White space up to the end of a line. -/
def endsLine : Text → Bool
  | [] => true
  | c :: cs => c == '\n' || (isSpace c && endsLine cs)

/-- `\s*$`. -/
def lineTail : Pattern := all [spaces, lineEnd]

theorem run_lineEnd (s : Cursor) :
    (seq lineEnd empty).run s = if s.ahead.head?.any (· != '\n') then [] else [s] := by
  rw [run, lineEnd, run]
  split_ifs <;> rfl

/-- **What may stand behind a value.** -/
theorem run_lineTail (s : Cursor) : (lineTail.run s ≠ [] ↔ endsLine s.ahead = true) ∧
    ∀ m ∈ lineTail.run s, m.groups = s.groups := by
  obtain ⟨behind, ahead, groups⟩ := s
  have htail : ∀ s, lineTail.run s = ((star (one isSpace)).run s).flatMap (seq lineEnd empty).run :=
    fun _ => rfl
  simp only [htail]
  induction ahead generalizing behind with
  | nil =>
    rw [run_star_one_nil isSpace rfl, List.flatMap_singleton, run_lineEnd]
    simp [endsLine]
  | cons c cs ih =>
    obtain ⟨hends, hgroups⟩ := ih (some c)
    rw [run_star_one_cons isSpace rfl, List.flatMap_append, List.flatMap_singleton, run_lineEnd]
    by_cases hspace : isSpace c = true
    · rw [if_pos hspace]
      constructor
      · rw [Ne, List.append_eq_nil_iff, not_and_or, ← Ne, hends]
        by_cases hc : c = '\n' <;> simp [endsLine, hspace, hc]
      · intro m hm
        rcases List.mem_append.1 hm with hm | hm
        · exact hgroups m hm
        · by_cases hc : c = '\n'
          · simp [hc] at hm
            rw [hm]
          · simp [hc] at hm
    · rw [if_neg hspace]
      have hc : c ≠ '\n' := by
        rintro rfl
        exact hspace (by decide)
      simp [endsLine, hspace, hc]

theorem refuses_lineTail {f : Char → Bool} (hf : ∀ c, f c = true → isSpace c = false) :
    lineTail.Refuses f := by
  rintro s ⟨c, hc, hfc⟩
  by_contra hne
  rw [← Ne, (run_lineTail s).1] at hne
  cases hahead : s.ahead with
  | nil =>
    rw [hahead] at hc
    cases hc
  | cons d ds =>
    rw [hahead] at hc hne
    obtain rfl : d = c := Option.some.inj hc
    have hspace := hf d hfc
    have hd : d ≠ '\n' := by
      rintro rfl
      revert hspace
      decide
    simp [endsLine, hspace, hd] at hne

/-- A literal text on a line of its own. -/
def ownLine (w : String) : Pattern := all [lineStart, spaces, exactly w, spaces, lineEnd]

/-- A word and a value on a line of their own. -/
def ownSummary (w : String) (f : Char → Bool) : Pattern :=
  all [lineStart, spaces, word w, spaces, value f, spaces, lineEnd]

/-- Whether a line holds a literal text and white space. -/
def readOwnLine (w : String) (t : Text) : Bool := (eat (exactClasses w) t).any endsLine

/-- The value of a line of a word and a value. -/
def readOwnSummary (w : String) (f : Char → Bool) (t : Text) : Option Text :=
  match eat (wordClasses w) t with
  | some rest =>
    let rest := rest.dropWhile isSpace
    if rest.takeWhile f ≠ [] ∧ endsLine (rest.dropWhile f) = true then some (rest.takeWhile f)
    else none
  | none => none

/-- A position where a line begins. -/
def lineBegins (behind : Option Char) : Bool := !behind.any (· != '\n')

theorem run_seq_lineStart (q : Pattern) (s : Cursor) :
    (seq lineStart q).run s = if lineBegins s.behind then q.run s else [] := by
  rw [run, lineStart, run, lineBegins]
  cases s.behind.any (· != '\n') <;> simp

theorem run_ownLine {w : String} (hw : Dark (exactClasses w)) (s : Cursor) :
    ((ownLine w).run s).head?.isSome =
      (lineBegins s.behind && readOwnLine w (s.ahead.dropWhile isSpace)) := by
  have hown : ownLine w =
      seq lineStart (seq spaces (seq (all ((exactClasses w).map one)) lineTail)) := by
    rw [← exactly_eq]
    rfl
  rw [hown, run_seq_lineStart]
  by_cases hbegins : lineBegins s.behind = true
  · obtain ⟨m, hrun, hahead, -⟩ := run_seq_star_one (refuses_ones hw lineTail) s
    rw [if_pos hbegins, hbegins, Bool.true_and, spaces, hrun, ← hahead, readOwnLine, run]
    obtain ⟨hnone, hsome⟩ := run_ones (exactClasses w) m
    cases heat : eat (exactClasses w) m.ahead with
    | none =>
      rw [hnone heat]
      rfl
    | some rest =>
      obtain ⟨m', hrun', hahead', -⟩ := hsome rest heat
      rw [hrun', List.flatMap_singleton, Option.any_some, ← hahead', Bool.eq_iff_iff,
        ← (run_lineTail m').1]
      cases lineTail.run m' <;> simp
  · rw [if_neg hbegins, Bool.eq_false_of_not_eq_true hbegins]
    rfl

theorem run_ownSummary {w : String} {f : Char → Bool} (hw : Dark (wordClasses w))
    (hf : ∀ c, isSpace c = true → f c = false) (s : Cursor) :
    ((ownSummary w f).run s).head?.map captured =
      if lineBegins s.behind then readOwnSummary w f (s.ahead.dropWhile isSpace) else none := by
  have hown : ownSummary w f = seq lineStart (seq spaces (seq (all ((wordClasses w).map one))
      (seq spaces (seq (value f) lineTail)))) := by
    rw [← word_eq]
    rfl
  rw [hown, run_seq_lineStart]
  by_cases hbegins : lineBegins s.behind = true
  · obtain ⟨m, hrun, hahead, -⟩ := run_seq_star_one (refuses_ones hw _) s
    rw [if_pos hbegins, if_pos hbegins, spaces, hrun, ← hahead, readOwnSummary, run]
    obtain ⟨hnone, hsome⟩ := run_ones (wordClasses w) m
    cases heat : eat (wordClasses w) m.ahead with
    | none =>
      rw [hnone heat]
      rfl
    | some rest =>
      obtain ⟨m', hrun', hahead', -⟩ := hsome rest heat
      obtain ⟨n, hrun'', hahead'', -⟩ := run_seq_star_one (refuses_value hf lineTail) m'
      rw [hrun', List.flatMap_singleton, hrun'']
      dsimp only
      rw [← hahead', ← hahead'', run]
      obtain ⟨hnil, hvalue⟩ := run_value f n
      by_cases htake : n.ahead.takeWhile f = []
      · rw [hnil htake, if_neg fun h => h.1 htake]
        rfl
      · obtain ⟨v, others, hv, hbehind, hgroup, hothers⟩ := hvalue htake
        have hdark : ∀ c, f c = true → isSpace c = false := by
          intro c hc
          by_contra hspace
          rw [hf c (by simpa using hspace)] at hc
          cases hc
        have hrest : others.flatMap lineTail.run = [] :=
          List.flatMap_eq_nil_iff.2 fun s' hs' => refuses_lineTail hdark s' (hothers s' hs')
        rw [hv, List.flatMap_cons, hrest, List.append_nil, ← hbehind]
        obtain ⟨hends, hgroups⟩ := run_lineTail v
        by_cases hend : endsLine v.ahead = true
        · rw [if_pos ⟨htake, hend⟩]
          cases htail : lineTail.run v with
          | nil => exact absurd htail (hends.2 hend)
          | cons x xs =>
            have hx := hgroups x (htail ▸ List.mem_cons_self)
            rw [List.head?_cons, Option.map_some, captured, Cursor.group, hx, ← hgroup]
            rfl
        · rw [if_neg fun h => hend h.2, not_not.1 (hends.not.2 hend)]
          rfl
  · rw [if_neg hbegins, if_neg hbegins]
    rfl

/-! ### Searches -/

section
variable {β : Type}

/-- The first reading of a text, at any position. -/
def firstIn (r : Text → Option β) : Text → Option β
  | [] => r []
  | c :: cs => (r (c :: cs)).or (firstIn r cs)

/-- The first reading of a text at the beginning of a line. -/
def firstAtLine (r : Text → Option β) : Bool → Text → Option β
  | begins, [] => if begins then r [] else none
  | begins, c :: cs => (if begins then r (c :: cs) else none).or (firstAtLine r (c == '\n') cs)

theorem searchFrom_eq_firstIn {p : Pattern} {g : Cursor → β} {r : Text → Option β}
    (h : ∀ s, (p.run s).head?.map g = r s.ahead) (behind : Option Char) (t : Text) :
    (p.searchFrom behind t).map g = firstIn r t := by
  induction t generalizing behind with
  | nil => exact h _
  | cons c cs ih =>
    have hhere := h ⟨behind, c :: cs, []⟩
    rw [searchFrom, firstIn, ← hhere]
    cases (p.run ⟨behind, c :: cs, []⟩).head? with
    | none => exact ih (some c)
    | some m => rfl

theorem searchFrom_eq_firstAtLine {p : Pattern} {g : Cursor → β} {r : Text → Option β}
    (h : ∀ s, (p.run s).head?.map g = if lineBegins s.behind then r s.ahead else none)
    (behind : Option Char) (t : Text) :
    (p.searchFrom behind t).map g = firstAtLine r (lineBegins behind) t := by
  induction t generalizing behind with
  | nil => exact h _
  | cons c cs ih =>
    have hhere := h ⟨behind, c :: cs, []⟩
    rw [searchFrom, firstAtLine, ← hhere]
    cases (p.run ⟨behind, c :: cs, []⟩).head? with
    | none =>
      have hbegins : lineBegins (some c) = (c == '\n') := by
        rw [lineBegins, Option.any_some, bne, Bool.not_not]
      rw [← hbegins]
      exact ih (some c)
    | some m => rfl

/-! ### One line after the other -/

/-- A reading that goes through a text line by line, where the lines are as they should be. -/
structure Linewise (fits : Text → Prop) (F : Text → Option β) : Prop where
  nil : F [] = none
  line {l : Text} (hl : '\n' ∉ l) (hfits : fits l) (u : Text) :
    F (l ++ '\n' :: u) = (F l).or (F u)

theorem firstIn_linewise {fits : Text → Prop} {r : Text → Option β} (hnil : r [] = none)
    (hr : ∀ l, '\n' ∉ l → fits l → ∀ v, v <:+ l → ∀ u, r (v ++ '\n' :: u) = r v) :
    Linewise fits (firstIn r) := by
  refine ⟨hnil, fun {l} hl hfits u => ?_⟩
  have hsuffix := hr l hl hfits
  clear hl hfits
  induction l with
  | nil =>
    rw [List.nil_append, firstIn, firstIn]
    exact congrArg (Option.or · (firstIn r u)) (hsuffix [] List.suffix_rfl u)
  | cons c l ih =>
    rw [List.cons_append, firstIn, firstIn, Option.or_assoc,
      ← ih fun v hv => hsuffix v (hv.trans (List.suffix_cons c l))]
    exact congrArg (Option.or · _) (hsuffix (c :: l) List.suffix_rfl u)

theorem firstAtLine_line (r : Text → Option β) {l : Text} (hl : '\n' ∉ l) (begins : Bool) :
    firstAtLine r begins l = if begins then r l else none := by
  induction l generalizing begins with
  | nil => rfl
  | cons c l ih =>
    rw [List.mem_cons, not_or] at hl
    have hc : (c == '\n') = false := beq_eq_false_iff_ne.2 fun h => hl.1 h.symm
    rw [firstAtLine, hc, ih hl.2]
    exact Option.or_none

theorem firstAtLine_append (r : Text → Option β) {l : Text} (hl : '\n' ∉ l) (begins : Bool)
    (u : Text) : firstAtLine r begins (l ++ '\n' :: u) =
      (if begins then r (l ++ '\n' :: u) else none).or (firstAtLine r true u) := by
  induction l generalizing begins with
  | nil => rfl
  | cons c l ih =>
    rw [List.mem_cons, not_or] at hl
    have hc : (c == '\n') = false := beq_eq_false_iff_ne.2 fun h => hl.1 h.symm
    rw [List.cons_append, firstAtLine, hc, ih hl.2]
    rfl

theorem firstAtLine_linewise {fits : Text → Prop} {q : Text → Option β}
    (hnil : q [] = none)
    (hq : ∀ l, '\n' ∉ l → fits l → ∀ u,
      q (l.dropWhile isSpace ++ '\n' :: u) = q (l.dropWhile isSpace)) :
    Linewise fits (firstAtLine (fun t => q (t.dropWhile isSpace)) true) := by
  refine ⟨by simpa [firstAtLine] using hnil, fun {l} hl hfits u => ?_⟩
  rw [firstAtLine_append _ hl, firstAtLine_line _ hl, if_pos rfl, if_pos rfl]
  have hfirst : ∃ x, firstAtLine (fun t => q (t.dropWhile isSpace)) true u =
      (q (u.dropWhile isSpace)).or x := by
    cases u with
    | nil => exact ⟨none, by rw [Option.or_none]; rfl⟩
    | cons c cs => exact ⟨_, rfl⟩
  by_cases hspace : l.dropWhile isSpace = []
  · -- a blank line leaves its place to the next one
    obtain ⟨x, hx⟩ := hfirst
    have hskip : (l ++ '\n' :: u).dropWhile isSpace = u.dropWhile isSpace := by
      rw [List.dropWhile_append, hspace]
      rfl
    rw [hskip, hspace, hnil, Option.none_or, hx, ← Option.or_assoc, Option.or_self]
  · have hskip : (l ++ '\n' :: u).dropWhile isSpace = l.dropWhile isSpace ++ '\n' :: u := by
      rw [List.dropWhile_append, if_neg (by simpa using hspace)]
    rw [hskip, hq l hl hfits u]

/-- The lines of a text, each with its newline but perhaps the last. -/
def Lined : List Text → Prop
  | [] => True
  | l :: ls => (∃ r, '\n' ∉ r ∧ (l = r ++ ['\n'] ∨ l = r ∧ ls = [])) ∧ Lined ls

theorem Lined.filter {ls : List Text} (h : Lined ls) (keep : Text → Bool) :
    Lined (ls.filter keep) := by
  induction ls with
  | nil => exact h
  | cons l ls ih =>
    obtain ⟨⟨r, hr, hl⟩, hrest⟩ := h
    rw [List.filter_cons]
    split_ifs
    · refine ⟨⟨r, hr, hl.imp_right fun h => ⟨h.1, ?_⟩⟩, ih hrest⟩
      rw [h.2]
      rfl
    · exact ih hrest

/-- The text of a line. -/
def chomp (l : Text) : Text := l.takeWhile (· != '\n')

theorem chomp_line {r : Text} (hr : '\n' ∉ r) : chomp (r ++ ['\n']) = r ∧ chomp r = r := by
  have hall : ∀ c ∈ r, (c != '\n') = true := by
    rintro c hc
    rw [bne_iff_ne]
    rintro rfl
    exact hr hc
  rw [chomp, chomp, List.takeWhile_append_of_pos hall, List.takeWhile_eq_self_iff.2 hall]
  exact ⟨List.append_nil r, rfl⟩

/-- **A linewise reading of some lines** is that of the first line that has one. -/
theorem Linewise.flatten {fits : Text → Prop} {F : Text → Option β} (h : Linewise fits F)
    {ls : List Text} (hls : Lined ls) (hfits : ∀ l ∈ ls, fits (chomp l)) :
    F ls.flatten = ls.findSome? F := by
  induction ls with
  | nil => exact h.nil
  | cons l ls ih =>
    obtain ⟨⟨r, hr, hl⟩, hrest⟩ := hls
    rw [List.forall_mem_cons] at hfits
    rw [List.flatten_cons, List.findSome?_cons]
    rcases hl with rfl | ⟨rfl, rfl⟩
    · have hfits' : fits r := (chomp_line hr).1 ▸ hfits.1
      have hline : F (r ++ ['\n']) = F r := by rw [h.line hr hfits', h.nil, Option.or_none]
      rw [List.append_assoc, List.singleton_append, h.line hr hfits', ih hrest hfits.2, hline]
      cases F r <;> rfl
    · rw [List.flatten_nil, List.append_nil]
      cases F l <;> rfl

end

/-! ### Readings across a line -/

theorem takeWhile_separated {f : Char → Bool} {c : Char} (hc : f c = false) (t u : Text) :
    (t ++ c :: u).takeWhile f = t.takeWhile f := by
  rw [List.takeWhile_append, List.takeWhile_cons_of_neg (by simp [hc]), List.append_nil]
  split_ifs with h
  · exact (List.takeWhile_sublist f).eq_of_length h |>.symm
  · rfl

theorem dropWhile_separated {f : Char → Bool} {c : Char} (hc : f c = false) (t u : Text) :
    (t ++ c :: u).dropWhile f = t.dropWhile f ++ c :: u := by
  rw [List.dropWhile_append, List.dropWhile_cons_of_neg (by simp [hc])]
  split_ifs with h
  · rw [List.isEmpty_iff.1 h]
    rfl
  · rfl

theorem dropWhile_space_append {t : Text} (ht : t.all isSpace = false) (u : Text) :
    (t ++ u).dropWhile isSpace = t.dropWhile isSpace ++ u := by
  rw [List.dropWhile_append, if_neg]
  rw [List.isEmpty_iff, List.dropWhile_eq_nil_iff]
  intro hall
  rw [List.all_eq_true.2 hall] at ht
  cases ht

theorem endsLine_append {t : Text} (ht : '\n' ∉ t) (u : Text) :
    endsLine (t ++ '\n' :: u) = endsLine t := by
  induction t with
  | nil => rfl
  | cons c t ih =>
    rw [List.mem_cons, not_or] at ht
    rw [List.cons_append, endsLine, endsLine, ih ht.2]

/-- A text that ends, up to white space, where a summary goes on. -/
def breaksOff : List String → Text → Bool
  | [], _ => false
  | w :: ws, t =>
    match eat (wordClasses w) t with
    | some rest => rest.all isSpace || breaksOff ws (rest.dropWhile isSpace)
    | none => false

theorem readSummary_append {words : List String} {f : Char → Bool} (hf : f '\n' = false)
    (hwords : ∀ w ∈ words, ∀ g ∈ wordClasses w, g '\n' = false) {t : Text}
    (ht : breaksOff words t = false) (u : Text) :
    readSummary f words (t ++ '\n' :: u) = readSummary f words t := by
  induction words generalizing t with
  | nil => rw [readSummary, readSummary, takeWhile_separated hf]
  | cons w ws ih =>
    rw [List.forall_mem_cons] at hwords
    rw [readSummary, readSummary, eat_append hwords.1]
    rw [breaksOff] at ht
    cases heat : eat (wordClasses w) t with
    | none => rfl
    | some rest =>
      rw [heat] at ht
      obtain ⟨hdark, hrest⟩ := Bool.or_eq_false_iff.1 ht
      rw [Option.map_some]
      dsimp only
      rw [dropWhile_space_append hdark]
      exact ih hwords.2 hrest

/-- The first value behind some words. -/
def findSummary (words : List String) (f : Char → Bool) : Text → Option Text :=
  firstIn (readSummary f words)

theorem search_summary {words : List String} {f : Char → Bool}
    (hwords : ∀ w ∈ words, Dark (wordClasses w)) (hf : ∀ c, isSpace c = true → f c = false)
    (t : Text) : ((summary words f).search t).map captured = findSummary words f t :=
  searchFrom_eq_firstIn (r := readSummary f words) (run_summary hwords hf) none t

/-- **A summary is found line by line** where no line breaks off inside it. -/
theorem findSummary_linewise {words : List String} {f : Char → Bool} (hnil : words ≠ [])
    (hdark : ∀ w ∈ words, Dark (wordClasses w)) (hf : f '\n' = false)
    (hwords : ∀ w ∈ words, ∀ g ∈ wordClasses w, g '\n' = false) :
    Linewise (fun l => ∀ v, v <:+ l → breaksOff words v = false) (findSummary words f) := by
  refine firstIn_linewise ?_ fun l _ hfits v hv u => readSummary_append hf hwords (hfits v hv) u
  cases words with
  | nil => exact absurd rfl hnil
  | cons w ws =>
    obtain ⟨g, gs, hclasses, -⟩ := hdark w List.mem_cons_self
    rw [readSummary, hclasses]
    rfl

/-- The first value on a line of its own. -/
def findOwnSummary (w : String) (f : Char → Bool) : Text → Option Text :=
  firstAtLine (fun t => readOwnSummary w f (t.dropWhile isSpace)) true

theorem search_ownSummary {w : String} {f : Char → Bool} (hw : Dark (wordClasses w))
    (hf : ∀ c, isSpace c = true → f c = false) (t : Text) :
    ((ownSummary w f).search t).map captured = findOwnSummary w f t :=
  searchFrom_eq_firstAtLine (r := fun t => readOwnSummary w f (t.dropWhile isSpace))
    (run_ownSummary hw hf) none t

theorem findOwnSummary_linewise {w : String} {f : Char → Bool} (hw : Dark (wordClasses w))
    (hf : f '\n' = false) (hline : ∀ g ∈ wordClasses w, g '\n' = false) :
    Linewise (fun l => breaksOff [w] (l.dropWhile isSpace) = false) (findOwnSummary w f) := by
  refine firstAtLine_linewise ?_ fun l hl hfits u => ?_
  · obtain ⟨g, gs, hclasses, -⟩ := hw
    rw [readOwnSummary, hclasses]
    rfl
  · rw [readOwnSummary, readOwnSummary, eat_append hline]
    rw [breaksOff] at hfits
    cases heat : eat (wordClasses w) (l.dropWhile isSpace) with
    | none => rfl
    | some rest =>
      rw [heat] at hfits
      obtain ⟨hdark, -⟩ := Bool.or_eq_false_iff.1 hfits
      have hrest : rest.dropWhile isSpace <:+ l := (List.dropWhile_suffix _).trans
        ((eat_suffix heat).trans (List.dropWhile_suffix _))
      have hbreak : '\n' ∉ (rest.dropWhile isSpace).dropWhile f := fun h =>
        hl (((List.dropWhile_suffix _).trans hrest).subset h)
      rw [Option.map_some]
      dsimp only
      rw [dropWhile_space_append hdark, takeWhile_separated hf, dropWhile_separated hf,
        endsLine_append hbreak]

/-- Whether some line is a literal text. -/
def findOwnLine (w : String) : Text → Option Unit :=
  firstAtLine (fun t => if readOwnLine w (t.dropWhile isSpace) then some () else none) true

theorem search_ownLine {w : String} (hw : Dark (exactClasses w)) (t : Text) :
    ((ownLine w).search t).map (fun _ => ()) = findOwnLine w t := by
  refine searchFrom_eq_firstAtLine
    (r := fun t => if readOwnLine w (t.dropWhile isSpace) then some () else none) (fun s => ?_)
    none t
  have hrun := run_ownLine hw s
  cases hhead : ((ownLine w).run s).head? with
  | none =>
    rw [hhead] at hrun
    cases hbegins : lineBegins s.behind <;> simp_all
  | some m =>
    rw [hhead] at hrun
    cases hbegins : lineBegins s.behind <;> simp_all

theorem findOwnLine_linewise {w : String} (hw : Dark (exactClasses w))
    (hline : ∀ g ∈ exactClasses w, g '\n' = false) :
    Linewise (fun _ => True) (findOwnLine w) := by
  refine firstAtLine_linewise
    (q := fun t => if readOwnLine w t then some () else none) ?_ fun l hl _ u => ?_
  · obtain ⟨g, gs, hclasses, -⟩ := hw
    rw [readOwnLine, hclasses]
    rfl
  · rw [readOwnLine, readOwnLine, eat_append hline]
    cases heat : eat (exactClasses w) (l.dropWhile isSpace) with
    | none => rfl
    | some rest =>
      have hbreak : '\n' ∉ rest := fun h =>
        hl (((eat_suffix heat).trans (List.dropWhile_suffix _)).subset h)
      rw [Option.map_some, Option.any_some, Option.any_some, endsLine_append hbreak]

end Pattern
end Python
end OpenFoamAgent
