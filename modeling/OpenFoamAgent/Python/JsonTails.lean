/-
# What stands behind a JSON value

A value that is read off the front of a text is read in the same way whatever text follows
(`scanValue_append`), except for a number, which may go on. An object is closed by its own
brace, so no part of its text is an object in turn (`loads_cut`): where a text holds an
object and its front part is read as well, that is the same object, and only white space
was cut off.
-/
import OpenFoamAgent.Python.JsonDecoder

namespace OpenFoamAgent
namespace Python
namespace Json

/-! ### Numbers -/

/-- What follows a number that is over. -/
def Over (rest : Text) : Prop := rest ≠ [] ∧ Stops rest

theorem takeDigits_tail {t : Text} (h : (takeDigits t).2 ≠ []) (u : Text) :
    takeDigits (t ++ u) = ((takeDigits t).1, (takeDigits t).2 ++ u) := by
  induction t with
  | nil => exact absurd rfl h
  | cons c t ih =>
    rw [List.cons_append, takeDigits, takeDigits]
    rw [takeDigits] at h
    by_cases hc : isAsciiDigit c = true
    · rw [List.dropWhile_cons_of_pos hc] at h
      obtain ⟨htake, hdrop⟩ := Prod.mk.inj (ih h)
      rw [List.takeWhile_cons_of_pos hc, List.takeWhile_cons_of_pos hc,
        List.dropWhile_cons_of_pos hc, List.dropWhile_cons_of_pos hc, htake, hdrop]
      rfl
    · rw [List.takeWhile_cons_of_neg hc, List.takeWhile_cons_of_neg hc,
        List.dropWhile_cons_of_neg hc, List.dropWhile_cons_of_neg hc]
      rfl

theorem scanExponent_tail {t : Text} (h : Over (scanExponent t).2) (u : Text) :
    scanExponent (t ++ u) = ((scanExponent t).1, (scanExponent t).2 ++ u) := by
  cases t with
  | nil => exact absurd rfl h.1
  | cons e t =>
    rw [List.cons_append, scanExponent, scanExponent]
    rw [scanExponent] at h
    dsimp only at h ⊢
    by_cases he : e = 'e' ∨ e = 'E'
    · rw [if_pos he] at h
      rw [if_pos he, if_pos he]
      by_cases hdigits : (takeDigits (takeSign t).2).1 = []
      · rw [if_pos hdigits] at h
        refine absurd (.inr ?_) (h.2 e rfl)
        rcases he with rfl | rfl <;> decide
      · rw [if_neg hdigits] at h
        have hsign : takeSign (t ++ u) = ((takeSign t).1, (takeSign t).2 ++ u) := by
          cases t with
          | nil => exact absurd rfl hdigits
          | cons c t =>
            by_cases hplus : c = '+'
            · subst hplus
              rfl
            · by_cases hminus : c = '-'
              · subst hminus
                rfl
              · simp [takeSign, hplus, hminus]
        rw [hsign]
        dsimp only
        rw [takeDigits_tail h.1, if_neg hdigits, if_neg hdigits]
    · rw [if_neg he, if_neg he]
      rfl

theorem scanFraction_tail {t : Text} (h : Over (scanExponent (scanFraction t).2).2) (u : Text) :
    scanFraction (t ++ u) = ((scanFraction t).1, (scanFraction t).2 ++ u) := by
  cases t with
  | nil => exact absurd rfl h.1
  | cons c t =>
    by_cases hc : c = '.'
    · subst hc
      rw [List.cons_append, scanFraction, scanFraction]
      rw [scanFraction] at h
      by_cases hdigits : (takeDigits t).1 = []
      · rw [if_pos hdigits] at h
        exact absurd (.inr (by decide)) (h.2 '.' rfl)
      · rw [if_neg hdigits] at h
        rw [takeDigits_tail fun hnil => h.1 (by rw [hnil]; rfl)]
        dsimp only
        rw [if_neg hdigits, if_neg hdigits]
    · simp [scanFraction, hc]

/-- **A number that is over is read the same whatever follows.** -/
theorem scanNumber_tail {t n rest : Text} (h : scanNumber t = some (n, rest)) (hrest : Over rest)
    (u : Text) : scanNumber (t ++ u) = some (n, rest ++ u) := by
  have hne : t ≠ [] := by
    rintro rfl
    cases h
  have hminus : takeMinus (t ++ u) = ((takeMinus t).1, (takeMinus t).2 ++ u) := by
    cases t with
    | nil => exact absurd rfl hne
    | cons c t =>
      by_cases hc : c = '-'
      · subst hc
        rfl
      · simp [takeMinus, hc]
  have hinteger : ∀ {t : Text} {r : Text × Text}, scanInteger t = some r →
      Over (scanExponent (scanFraction r.2).2).2 →
        scanInteger (t ++ u) = some (r.1, r.2 ++ u) := by
    intro t r hr hover
    cases t with
    | nil => cases hr
    | cons c t =>
      rw [List.cons_append, scanInteger]
      rw [scanInteger] at hr
      split_ifs at hr ⊢
      · obtain rfl := Option.some.inj hr
        rfl
      · obtain rfl := Option.some.inj hr
        rw [takeDigits_tail fun hnil => hover.1 (by rw [hnil]; rfl)]
  rw [scanNumber] at h ⊢
  dsimp only at h ⊢
  rw [hminus]
  cases hscan : scanInteger (takeMinus t).2 with
  | none =>
    rw [hscan] at h
    cases h
  | some integer =>
    rw [hscan] at h
    dsimp only at h ⊢
    split_ifs at h with hlong
    obtain ⟨rfl, rfl⟩ := Prod.mk.inj (Option.some.inj h)
    rw [hinteger hscan hrest]
    dsimp only
    rw [scanFraction_tail hrest, scanExponent_tail hrest, if_neg hlong]

/-! ### Texts -/

theorem scanHex_tail {t rest : Text} {n : ℕ} (h : scanHex t = some (n, rest)) (u : Text) :
    scanHex (t ++ u) = some (n, rest ++ u) := by
  rcases t with _ | ⟨a, _ | ⟨b, _ | ⟨c, _ | ⟨d, t⟩⟩⟩⟩
  · cases h
  · cases h
  · cases h
  · cases h
  · rw [scanHex] at h
    rw [List.cons_append, List.cons_append, List.cons_append, List.cons_append, scanHex]
    cases ha : hexValue a <;> cases hb : hexValue b <;> cases hc : hexValue c <;>
      cases hd : hexValue d <;> simp_all

/-- What follows a character that is over: an escape is whole or not begun. -/
def Whole (rest : Text) : Prop := rest ≠ [] ∧ rest ≠ ['\\']

theorem scanUnicode_tail {t rest : Text} {c : Char} (h : scanUnicode t = some (c, rest))
    (hrest : Whole rest) (u : Text) : scanUnicode (t ++ u) = some (c, rest ++ u) := by
  rw [scanUnicode] at h ⊢
  cases hhigh : scanHex t with
  | none =>
    rw [hhigh] at h
    cases h
  | some r =>
    obtain ⟨high, r⟩ := r
    rw [hhigh] at h
    rw [scanHex_tail hhigh]
    dsimp only at h ⊢
    by_cases hsurrogate : 0xd800 ≤ high ∧ high ≤ 0xdbff
    · rw [if_pos hsurrogate] at h ⊢
      rcases r with _ | ⟨a, _ | ⟨b, r⟩⟩
      · obtain ⟨-, rfl⟩ := Prod.mk.inj (Option.some.inj h)
        exact absurd rfl hrest.1
      · by_cases ha : a = '\\'
        · subst ha
          obtain ⟨-, rfl⟩ := Prod.mk.inj (Option.some.inj h)
          exact absurd rfl hrest.2
        · obtain ⟨rfl, rfl⟩ : codePoint high = c ∧ [a] = rest := by simpa [ha] using h
          simp [ha]
      · by_cases ha : a = '\\'
        · subst ha
          by_cases hb : b = 'u'
          · subst hb
            cases hlow : scanHex r with
            | none => simp [hlow] at h
            | some l =>
              obtain ⟨low, r'⟩ := l
              have hlow' := scanHex_tail hlow u
              simp only [hlow] at h
              simp only [List.cons_append, hlow']
              split_ifs at h ⊢
              · obtain ⟨rfl, rfl⟩ := Prod.mk.inj (Option.some.inj h)
                rfl
              · obtain ⟨rfl, rfl⟩ := Prod.mk.inj (Option.some.inj h)
                rfl
          · obtain ⟨rfl, rfl⟩ : codePoint high = c ∧ '\\' :: b :: r = rest := by
              simpa [hb] using h
            simp [hb]
        · obtain ⟨rfl, rfl⟩ : codePoint high = c ∧ a :: b :: r = rest := by simpa [ha] using h
          simp [ha]
    · rw [if_neg hsurrogate] at h ⊢
      obtain ⟨rfl, rfl⟩ := Prod.mk.inj (Option.some.inj h)
      rfl

theorem scanChar_tail {t rest : Text} {c : Char} (h : scanChar t = some (c, rest))
    (hrest : Whole rest) (u : Text) : scanChar (t ++ u) = some (c, rest ++ u) := by
  rcases t with _ | ⟨a, t⟩
  · cases h
  · by_cases ha : a = '\\'
    · subst ha
      rcases t with _ | ⟨b, t⟩
      · cases h
      · by_cases hb : b = 'u'
        · subst hb
          exact scanUnicode_tail h hrest u
        · obtain ⟨d, hd, heq⟩ : ∃ d, escaped b = some d ∧ (d, t) = (c, rest) := by
            simpa [scanChar, hb] using h
          obtain ⟨rfl, rfl⟩ := Prod.mk.inj heq
          simp [scanChar, hd]
    · obtain ⟨hle, rfl, rfl⟩ : 0x20 ≤ a.toNat ∧ a = c ∧ t = rest := by
        simpa [scanChar, ha] using h
      simp [scanChar, ha, hle]

theorem whole_of_scanStringFrom {fuel : ℕ} {t : Text} {r : Text × Text}
    (h : scanStringFrom fuel t = some r) : Whole t := by
  cases fuel with
  | zero => cases h
  | succ fuel =>
    constructor
    · rintro rfl
      cases h
    · rintro rfl
      cases h

theorem scanStringFrom_tail {fuel fuel' : ℕ} (hfuel : fuel ≤ fuel') {t s rest : Text}
    (h : scanStringFrom fuel t = some (s, rest)) (u : Text) :
    scanStringFrom fuel' (t ++ u) = some (s, rest ++ u) := by
  induction fuel generalizing fuel' t s with
  | zero => cases h
  | succ fuel ih =>
    obtain ⟨fuel', rfl⟩ := Nat.exists_eq_add_of_le' (Nat.succ_pos fuel |>.trans_le hfuel)
    have hne := (whole_of_scanStringFrom h).1
    rw [scanStringFrom] at h ⊢
    rw [List.head?_append_of_ne_nil _ hne]
    by_cases hquote : t.head? = some '"'
    · rw [if_pos hquote] at h ⊢
      obtain ⟨rfl, rfl⟩ := Prod.mk.inj (Option.some.inj h)
      rw [List.tail_append_of_ne_nil hne]
    · rw [if_neg hquote] at h ⊢
      cases hchar : scanChar t with
      | none =>
        rw [hchar] at h
        cases h
      | some r =>
        obtain ⟨c, t'⟩ := r
        rw [hchar] at h
        obtain ⟨r, hr, heq⟩ := Option.map_eq_some_iff.1 h
        obtain ⟨s', rest'⟩ := r
        obtain ⟨rfl, rfl⟩ := Prod.mk.inj heq
        rw [scanChar_tail hchar (whole_of_scanStringFrom hr)]
        dsimp only
        rw [ih (Nat.le_of_succ_le_succ hfuel) hr]
        rfl

/-- **A text is read the same whatever follows its closing quote.** -/
theorem scanString_tail {t s rest : Text} (h : scanString t = some (s, rest)) (u : Text) :
    scanString (t ++ u) = some (s, rest ++ u) :=
  scanStringFrom_tail (by rw [List.length_append]; omega) h u

/-! ### Values -/

theorem scanScalar_tail {t rest : Text} {v : Json} (h : scanScalar t = some (v, rest))
    (hover : ∀ n, v = number n → Over rest) (u : Text) :
    scanScalar (t ++ u) = some (v, rest ++ u) := by
  rw [scanScalar] at h
  cases hfind : constants.find? fun e => e.1.isPrefixOf t with
  | none =>
    rw [hfind] at h
    obtain ⟨⟨n, rest'⟩, hr, heq⟩ := Option.map_eq_some_iff.1 h
    obtain ⟨rfl, rfl⟩ := Prod.mk.inj heq
    rw [scanScalar, find?_constants_eq_none hr u, scanNumber_tail hr (hover n rfl)]
    rfl
  | some e =>
    rw [hfind] at h
    obtain ⟨rfl, rfl⟩ := Prod.mk.inj (Option.some.inj h)
    obtain ⟨he, before, after, hconstants, hbefore⟩ := List.find?_eq_some_iff_append.1 hfind
    have hstart : e.1 <+: t := List.isPrefixOf_iff_prefix.1 he
    have hfind' : constants.find? (fun e => e.1.isPrefixOf (t ++ u)) = some e := by
      refine List.find?_eq_some_iff_append.2 ⟨List.isPrefixOf_iff_prefix.2
        (hstart.trans (List.prefix_append t u)), before, after, hconstants, fun a ha => ?_⟩
      rw [Bool.not_eq_true', Bool.eq_false_iff, Ne, List.isPrefixOf_iff_prefix]
      intro hother
      -- two constants in front of one text start with the same character
      have hheads : (constants.map fun e => e.1.head?).Nodup := by decide
      rw [hconstants, List.map_append, List.map_cons] at hheads
      have hnil : ∀ e ∈ constants, e.1 ≠ [] := by simp [constants]
      have ha' : a.1 ≠ [] := hnil a (by rw [hconstants]; exact List.mem_append_left _ ha)
      have he' : e.1 ≠ [] := hnil e (by rw [hconstants]; simp)
      refine (List.nodup_append.1 hheads).2.2 _ (List.mem_map_of_mem ha) _ List.mem_cons_self ?_
      obtain ⟨w, hw⟩ := hother
      obtain ⟨w', hw'⟩ := hstart.trans (List.prefix_append t u)
      rw [← List.head?_append_of_ne_nil _ ha', hw, ← hw', List.head?_append_of_ne_nil _ he']
    rw [scanScalar, hfind']
    dsimp only
    rw [List.drop_append_of_le_length hstart.length_le]

theorem over_of_skip {rest : Text} {c : Char} (h : (skip rest).head? = some c)
    (hc : c = ',' ∨ c = ']' ∨ c = '\x7d') : Over rest := by
  cases rest with
  | nil => cases h
  | cons d ds =>
    refine ⟨List.cons_ne_nil d ds, fun x hx => ?_⟩
    obtain rfl : d = x := Option.some.inj hx
    by_cases hd : isJsonSpace d = true
    · simp only [isJsonSpace, Bool.or_eq_true, beq_iff_eq] at hd
      rcases hd with ((rfl | rfl) | rfl) | rfl <;> decide
    · rw [skip_cons (by simpa using hd)] at h
      obtain rfl : d = c := Option.some.inj h
      rcases hc with rfl | rfl | rfl <;> decide

theorem skip_append {t : Text} (h : skip t ≠ []) (u : Text) : skip (t ++ u) = skip t ++ u := by
  induction t with
  | nil => exact absurd rfl h
  | cons c t ih =>
    by_cases hc : isJsonSpace c = true
    · rw [skip, List.dropWhile_cons_of_pos hc] at h
      rw [List.cons_append, skip, skip, List.dropWhile_cons_of_pos hc,
        List.dropWhile_cons_of_pos hc]
      exact ih h
    · rw [List.cons_append, skip_cons (by simpa using hc), skip_cons (by simpa using hc)]
      rfl

/-- A token behind white space stays in its place. -/
theorem skip_token {rest : Text} {c : Char} (h : (skip rest).head? = some c) (u : Text) :
    (skip (rest ++ u)).head? = some c ∧ (skip (rest ++ u)).tail = (skip rest).tail ++ u := by
  have hne : skip rest ≠ [] := by
    intro hnil
    rw [hnil] at h
    cases h
  rw [skip_append hne, List.head?_append_of_ne_nil _ hne, List.tail_append_of_ne_nil hne]
  exact ⟨h, rfl⟩

/-- What stands behind white space is no other token. -/
theorem skip_other {rest : Text} {c : Char} (hne : skip rest ≠ []) (h : (skip rest).head? ≠ some c)
    (u : Text) : (skip (rest ++ u)).head? ≠ some c := by
  rwa [skip_append hne, List.head?_append_of_ne_nil _ hne]

theorem scanValue_nil (fuel : ℕ) : scanValue fuel [] = none := by
  cases fuel <;> rfl

theorem scanItems_nil (fuel : ℕ) : scanItems fuel [] = none := by
  cases fuel with
  | zero => rfl
  | succ fuel => rw [scanItems, scanValue_nil]

theorem scanEntries_nil (fuel : ℕ) : scanEntries fuel [] = none := by
  cases fuel <;> rfl

/-- What the scanners read with some fuel, they read with more of it and in front of
anything. -/
structure Tails (fuel : ℕ) : Prop where
  value {fuel' : ℕ} (hfuel : fuel ≤ fuel') {t rest : Text} {v : Json}
    (h : scanValue fuel t = some (v, rest)) (hover : ∀ n, v = number n → Over rest) (u : Text) :
    scanValue fuel' (t ++ u) = some (v, rest ++ u)
  items {fuel' : ℕ} (hfuel : fuel ≤ fuel') {t rest : Text} {xs : List Json}
    (h : scanItems fuel t = some (xs, rest)) (u : Text) :
    scanItems fuel' (t ++ u) = some (xs, rest ++ u)
  entries {fuel' : ℕ} (hfuel : fuel ≤ fuel') {t rest : Text} {es : List (Text × Json)}
    (h : scanEntries fuel t = some (es, rest)) (u : Text) :
    scanEntries fuel' (t ++ u) = some (es, rest ++ u)

theorem Tails.scanValue_succ {fuel fuel' : ℕ} (ih : Tails fuel) (hfuel : fuel ≤ fuel')
    {t rest : Text} {v : Json} (h : scanValue (fuel + 1) t = some (v, rest))
    (hover : ∀ n, v = number n → Over rest) (u : Text) :
    scanValue (fuel' + 1) (t ++ u) = some (v, rest ++ u) := by
  rcases t with _ | ⟨c, t⟩
  · cases h
  · by_cases hquote : c = '"'
    · subst hquote
      rw [scanValue] at h
      obtain ⟨⟨s, rest'⟩, hs, heq⟩ := Option.map_eq_some_iff.1 h
      obtain ⟨rfl, rfl⟩ := Prod.mk.inj heq
      rw [List.cons_append, scanValue, scanString_tail hs]
      rfl
    · by_cases hlist : c = '['
      · subst hlist
        rw [scanValue] at h
        rw [List.cons_append, scanValue]
        by_cases hempty : (skip t).head? = some ']'
        · obtain ⟨hempty', htail⟩ := skip_token hempty u
          rw [if_pos hempty] at h
          obtain ⟨rfl, rfl⟩ := Prod.mk.inj (Option.some.inj h)
          rw [if_pos hempty', htail]
        · rw [if_neg hempty] at h
          obtain ⟨⟨xs, rest'⟩, hitems, heq⟩ := Option.map_eq_some_iff.1 h
          obtain ⟨rfl, rfl⟩ := Prod.mk.inj heq
          have hne : skip t ≠ [] := by
            intro hnil
            rw [hnil, scanItems_nil] at hitems
            cases hitems
          rw [if_neg (skip_other hne hempty u), skip_append hne, ih.items hfuel hitems]
          rfl
      · by_cases hdict : c = '\x7b'
        · subst hdict
          rw [scanValue] at h
          rw [List.cons_append, scanValue]
          by_cases hempty : (skip t).head? = some '\x7d'
          · obtain ⟨hempty', htail⟩ := skip_token hempty u
            rw [if_pos hempty] at h
            obtain ⟨rfl, rfl⟩ := Prod.mk.inj (Option.some.inj h)
            rw [if_pos hempty', htail]
          · rw [if_neg hempty] at h
            obtain ⟨⟨es, rest'⟩, hentries, heq⟩ := Option.map_eq_some_iff.1 h
            obtain ⟨rfl, rfl⟩ := Prod.mk.inj heq
            have hne : skip t ≠ [] := by
              intro hnil
              rw [hnil, scanEntries_nil] at hentries
              cases hentries
            rw [if_neg (skip_other hne hempty u), skip_append hne, ih.entries hfuel hentries]
            rfl
        · have hscalar : scanScalar (c :: t) = some (v, rest) := by
            simpa [scanValue, hquote, hlist, hdict] using h
          simpa [scanValue, hquote, hlist, hdict] using scanScalar_tail hscalar hover u

theorem Tails.scanItems_succ {fuel fuel' : ℕ} (ih : Tails fuel) (hfuel : fuel ≤ fuel')
    {t rest : Text} {xs : List Json} (h : scanItems (fuel + 1) t = some (xs, rest)) (u : Text) :
    scanItems (fuel' + 1) (t ++ u) = some (xs, rest ++ u) := by
  rw [scanItems] at h ⊢
  cases hvalue : scanValue fuel t with
  | none =>
    rw [hvalue] at h
    cases h
  | some r =>
    obtain ⟨x, rest'⟩ := r
    rw [hvalue] at h
    dsimp only at h
    by_cases hclose : (skip rest').head? = some ']'
    · obtain ⟨hclose', htail⟩ := skip_token hclose u
      rw [if_pos hclose] at h
      obtain ⟨rfl, rfl⟩ := Prod.mk.inj (Option.some.inj h)
      rw [ih.value hfuel hvalue (fun _ _ => over_of_skip hclose (.inr (.inl rfl)))]
      dsimp only
      rw [if_pos hclose', htail]
    · rw [if_neg hclose] at h
      by_cases hcomma : (skip rest').head? = some ','
      · obtain ⟨hcomma', htail⟩ := skip_token hcomma u
        rw [if_pos hcomma] at h
        obtain ⟨⟨ys, rest''⟩, hitems, heq⟩ := Option.map_eq_some_iff.1 h
        obtain ⟨rfl, rfl⟩ := Prod.mk.inj heq
        have hne' : skip (skip rest').tail ≠ [] := by
          intro hnil
          rw [hnil, scanItems_nil] at hitems
          cases hitems
        rw [ih.value hfuel hvalue (fun _ _ => over_of_skip hcomma (.inl rfl))]
        dsimp only
        rw [hcomma', if_neg (by decide), if_pos rfl, htail, skip_append hne',
          ih.items hfuel hitems]
        rfl
      · rw [if_neg hcomma] at h
        cases h

theorem Tails.scanEntries_succ {fuel fuel' : ℕ} (ih : Tails fuel) (hfuel : fuel ≤ fuel')
    {t rest : Text} {es : List (Text × Json)} (h : scanEntries (fuel + 1) t = some (es, rest))
    (u : Text) : scanEntries (fuel' + 1) (t ++ u) = some (es, rest ++ u) := by
  rcases t with _ | ⟨c, t⟩
  · cases h
  · rw [scanEntries, List.head?_cons, List.tail_cons] at h
    rw [List.cons_append, scanEntries, List.head?_cons, List.tail_cons]
    by_cases hquote : some c = some '"'
    · rw [if_pos hquote] at h ⊢
      cases hkey : scanString t with
      | none =>
        rw [hkey] at h
        cases h
      | some r =>
        obtain ⟨key, rest'⟩ := r
        rw [hkey] at h
        rw [scanString_tail hkey]
        dsimp only at h ⊢
        by_cases hcolon : (skip rest').head? = some ':'
        · obtain ⟨hcolon', htail⟩ := skip_token hcolon u
          rw [if_pos hcolon] at h
          rw [if_pos hcolon', htail]
          cases hvalue : scanValue fuel (skip (skip rest').tail) with
          | none =>
            rw [hvalue] at h
            cases h
          | some r =>
            obtain ⟨x, rest₁⟩ := r
            rw [hvalue] at h
            dsimp only at h
            have hne : skip (skip rest').tail ≠ [] := by
              intro hnil
              rw [hnil, scanValue_nil] at hvalue
              cases hvalue
            rw [skip_append hne]
            by_cases hclose : (skip rest₁).head? = some '\x7d'
            · obtain ⟨hclose', htail'⟩ := skip_token hclose u
              rw [if_pos hclose] at h
              obtain ⟨rfl, rfl⟩ := Prod.mk.inj (Option.some.inj h)
              rw [ih.value hfuel hvalue (fun _ _ => over_of_skip hclose (.inr (.inr rfl)))]
              dsimp only
              rw [if_pos hclose', htail']
            · rw [if_neg hclose] at h
              by_cases hcomma : (skip rest₁).head? = some ','
              · obtain ⟨hcomma', htail'⟩ := skip_token hcomma u
                rw [if_pos hcomma] at h
                obtain ⟨⟨ys, rest₂⟩, hentries, heq⟩ := Option.map_eq_some_iff.1 h
                obtain ⟨rfl, rfl⟩ := Prod.mk.inj heq
                have hne' : skip (skip rest₁).tail ≠ [] := by
                  intro hnil
                  rw [hnil, scanEntries_nil] at hentries
                  cases hentries
                rw [ih.value hfuel hvalue (fun _ _ => over_of_skip hcomma (.inl rfl))]
                dsimp only
                rw [hcomma', if_neg (by decide), if_pos rfl, htail', skip_append hne',
                  ih.entries hfuel hentries]
                rfl
              · rw [if_neg hcomma] at h
                cases h
        · rw [if_neg hcolon] at h
          cases h
    · rw [if_neg hquote] at h
      cases h

/-- **A value is read the same whatever follows.** -/
theorem tails (fuel : ℕ) : Tails fuel := by
  induction fuel with
  | zero =>
    constructor
    · intro _ _ _ _ _ h
      cases h
    · intro _ _ _ _ _ h
      cases h
    · intro _ _ _ _ _ h
      cases h
  | succ fuel ih =>
    constructor
    · intro fuel' hfuel t rest v h hover u
      obtain ⟨fuel', rfl⟩ := Nat.exists_eq_add_of_le' ((Nat.succ_pos fuel).trans_le hfuel)
      exact ih.scanValue_succ (Nat.le_of_succ_le_succ hfuel) h hover u
    · intro fuel' hfuel t rest xs h u
      obtain ⟨fuel', rfl⟩ := Nat.exists_eq_add_of_le' ((Nat.succ_pos fuel).trans_le hfuel)
      exact ih.scanItems_succ (Nat.le_of_succ_le_succ hfuel) h u
    · intro fuel' hfuel t rest es h u
      obtain ⟨fuel', rfl⟩ := Nat.exists_eq_add_of_le' ((Nat.succ_pos fuel).trans_le hfuel)
      exact ih.scanEntries_succ (Nat.le_of_succ_le_succ hfuel) h u

/-! ### Objects -/

/-- Only an object starts with a brace. -/
theorem head_of_scanValue_dict {fuel : ℕ} {t rest : Text} {es : List (Text × Json)}
    (h : scanValue fuel t = some (dict es, rest)) : t.head? = some '\x7b' := by
  cases fuel with
  | zero => cases h
  | succ fuel =>
    rcases t with _ | ⟨c, t⟩
    · cases h
    · by_cases hdict : c = '\x7b'
      · rw [hdict]
        rfl
      · exfalso
        by_cases hquote : c = '"'
        · subst hquote
          rw [scanValue] at h
          obtain ⟨r, -, heq⟩ := Option.map_eq_some_iff.1 h
          cases heq
        · by_cases hlist : c = '['
          · subst hlist
            rw [scanValue] at h
            split_ifs at h
            · cases h
            · obtain ⟨r, -, heq⟩ := Option.map_eq_some_iff.1 h
              cases heq
          · have hscalar : scanScalar (c :: t) = some (dict es, rest) := by
              simpa [scanValue, hquote, hlist, hdict] using h
            rw [scanScalar] at hscalar
            cases hfind : constants.find? fun e => e.1.isPrefixOf (c :: t) with
            | none =>
              rw [hfind] at hscalar
              obtain ⟨r, -, heq⟩ := Option.map_eq_some_iff.1 hscalar
              cases heq
            | some e =>
              rw [hfind] at hscalar
              have he := List.mem_of_find?_eq_some hfind
              have hv : e.2 = dict es := (Prod.mk.inj (Option.some.inj hscalar)).1
              simp only [constants, List.mem_cons, List.not_mem_nil, or_false] at he
              rcases he with rfl | rfl | rfl | rfl | rfl | rfl <;> cases hv

/-- What starts with a brace is an object. -/
theorem eq_dict_of_head {fuel : ℕ} {t rest : Text} {v : Json}
    (h : scanValue fuel t = some (v, rest)) (hhead : t.head? = some '\x7b') :
    ∃ es, v = dict es := by
  cases fuel with
  | zero => cases h
  | succ fuel =>
    rcases t with _ | ⟨c, t⟩
    · cases hhead
    · obtain rfl : c = '\x7b' := Option.some.inj hhead
      rw [scanValue] at h
      split_ifs at h
      · exact ⟨[], (Prod.mk.inj (Option.some.inj h)).1.symm⟩
      · obtain ⟨r, -, heq⟩ := Option.map_eq_some_iff.1 h
        exact ⟨_, (Prod.mk.inj heq).1.symm⟩

/-- `t` holds an object and white space around it, read with fuel to spare. -/
def HoldsObject (t : Text) (es : List (Text × Json)) : Prop :=
  ∃ fuel rest, 2 * t.length + 2 ≤ fuel ∧ scanValue fuel (skip t) = some (dict es, rest) ∧
    skip rest = []

theorem loads_eq_some {t : Text} {v : Json} (h : loads t = some v) :
    ∃ rest, scanValue (2 * t.length + 2) (skip t) = some (v, rest) ∧ skip rest = [] := by
  rw [loads] at h
  cases hscan : scanValue (2 * t.length + 2) (skip t) with
  | none =>
    rw [hscan] at h
    cases h
  | some r =>
    obtain ⟨x, rest⟩ := r
    rw [hscan] at h
    dsimp only at h
    split_ifs at h with hrest
    obtain rfl := Option.some.inj h
    exact ⟨rest, rfl, hrest⟩

theorem holdsObject_of_loads {t : Text} {es : List (Text × Json)} (h : loads t = some (dict es)) :
    HoldsObject t es := by
  obtain ⟨rest, hscan, hrest⟩ := loads_eq_some h
  exact ⟨_, rest, le_rfl, hscan, hrest⟩

/-- **An object is read from its whole text only.** A front part that is read holds the same
object, and what it lacks is white space. -/
theorem HoldsObject.cut {t u : Text} {es : List (Text × Json)} {v : Json}
    (h : HoldsObject (t ++ u) es) (ht : loads t = some v) : v = dict es ∧ skip u = [] := by
  obtain ⟨fuel, rest, hfuel, hscan, hrest⟩ := h
  obtain ⟨rest', hscan', hrest'⟩ := loads_eq_some ht
  have hne : skip t ≠ [] := by
    intro hnil
    rw [hnil, scanValue_nil] at hscan'
    cases hscan'
  rw [skip_append hne] at hscan
  have hhead := head_of_scanValue_dict hscan
  rw [List.head?_append_of_ne_nil _ hne] at hhead
  obtain ⟨es', rfl⟩ := eq_dict_of_head hscan' hhead
  rw [List.length_append] at hfuel
  have hle : 2 * t.length + 2 ≤ fuel := by omega
  have hsame := (tails _).value hle hscan' (fun _ h => by cases h) u
  rw [hscan] at hsame
  obtain ⟨hdict, rfl⟩ := Prod.mk.inj (Option.some.inj hsame)
  refine ⟨hdict.symm, ?_⟩
  rw [skip, List.dropWhile_eq_nil_iff] at hrest ⊢
  exact fun c hc => hrest c (List.mem_append_right _ hc)

/-- White space in front of an object. -/
theorem HoldsObject.of_space {t u : Text} {es : List (Text × Json)} (h : HoldsObject (t ++ u) es)
    (ht : ∀ c ∈ t, c ≠ '\x7b') : HoldsObject u es := by
  obtain ⟨fuel, rest, hfuel, hscan, hrest⟩ := h
  have hskip : skip (t ++ u) = skip u := by
    induction t with
    | nil => rfl
    | cons c t ih =>
      by_cases hc : isJsonSpace c = true
      · rw [List.cons_append, skip, List.dropWhile_cons_of_pos hc] at hscan ⊢
        exact ih (fun d hd => ht d (List.mem_cons_of_mem _ hd))
          (le_trans (by simp) hfuel) hscan
      · have hhead := head_of_scanValue_dict hscan
        rw [List.cons_append, skip_cons (by simpa using hc)] at hhead
        exact absurd (Option.some.inj hhead) (ht c List.mem_cons_self)
  rw [hskip] at hscan
  rw [List.length_append] at hfuel
  exact ⟨fuel, rest, by omega, hscan, hrest⟩

end Json
end Python
end OpenFoamAgent
