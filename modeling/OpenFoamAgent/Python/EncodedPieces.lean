/-
# UTF-8 files in pieces

Where a file is cut: the bytes of a text fall into the bytes of two texts, or
they are cut inside one character (`encode_eq_append`). The decoder starts anew at
every byte that begins a character, so a text between two parts of any file is
read back by itself (`decodeReplace_around`), and the halves of a character are
read as replacements (`decodeFrom_of_cut`, `decodeFrom_continuations`).
-/
import OpenFoamAgent.Python.Codec

namespace OpenFoamAgent
namespace Python

/-- A byte that never begins a character: `10xxxxxx`. -/
def Continuation (b : UInt8) : Prop := 0x80 ≤ b.toNat ∧ b.toNat ≤ 0xbf

/-- The sequence of a character: one byte that begins it, and bytes that do not. -/
theorem encodeChar_shape (c : Char) : ∃ lead rest, encodeChar c = lead :: rest ∧
    ¬ Continuation lead ∧ ∀ b ∈ rest, Continuation b := by
  have hr := char_toNat_range c
  have hbyte : ∀ {n : ℕ}, 0x80 ≤ n → n ≤ 0xbf → Continuation (UInt8.ofNat n) := fun hl hh => by
    unfold Continuation
    rw [toNat_ofNat_of_lt (by omega)]
    exact ⟨hl, hh⟩
  have hlead : ∀ {n : ℕ}, n < 0x80 ∨ 0xbf < n → n < 256 → ¬ Continuation (UInt8.ofNat n) :=
    fun hn hlt => by
      unfold Continuation
      rw [toNat_ofNat_of_lt hlt]
      omega
  unfold encodeChar
  generalize c.toNat = n at hr
  dsimp only
  split_ifs with h1 h2 h3
  · exact ⟨_, _, rfl, hlead (by omega) (by omega), by simp⟩
  · refine ⟨_, _, rfl, hlead (by omega) (by omega), ?_⟩
    exact List.forall_mem_singleton.2 (hbyte (by omega) (by omega))
  · refine ⟨_, _, rfl, hlead (by omega) (by omega), ?_⟩
    exact List.forall_mem_cons.2 ⟨hbyte (by omega) (by omega),
      List.forall_mem_singleton.2 (hbyte (by omega) (by omega))⟩
  · refine ⟨_, _, rfl, hlead (by omega) (by omega), ?_⟩
    exact List.forall_mem_cons.2 ⟨hbyte (by omega) (by omega),
      List.forall_mem_cons.2 ⟨hbyte (by omega) (by omega),
        List.forall_mem_singleton.2 (hbyte (by omega) (by omega))⟩⟩

theorem encode_append (s t : Text) : encode (s ++ t) = encode s ++ encode t := List.flatMap_append

theorem encode_cons (c : Char) (t : Text) : encode (c :: t) = encodeChar c ++ encode t :=
  List.flatMap_cons

/-! ### The decoder in pieces -/

/-- What the decoder gives for a part of a file, and the state behind it. -/
def scan (st : Option Pending) : Bytes → List Decoded × Option Pending
  | [] => ([], st)
  | b :: bs => ((feed st b.toNat).1 ++ (scan (feed st b.toNat).2 bs).1, (scan (feed st b.toNat).2 bs).2)

/-- What the decoder gives at the end of a file. -/
def flush : Option Pending → List Decoded
  | none => []
  | some _ => [none]

theorem decodeFrom_append (st : Option Pending) (x y : Bytes) :
    decodeFrom st (x ++ y) = (scan st x).1 ++ decodeFrom (scan st x).2 y := by
  induction x generalizing st with
  | nil => rfl
  | cons b bs ih => rw [List.cons_append, decodeFrom, ih, scan, List.append_assoc]

theorem decodeFrom_eq_scan (st : Option Pending) (x : Bytes) :
    decodeFrom st x = (scan st x).1 ++ flush (scan st x).2 := by
  have h := decodeFrom_append st x []
  rw [List.append_nil] at h
  rw [h]
  cases (scan st x).2 <;> rfl

/-- The byte that an unfinished sequence waits for is one that does not begin a character. -/
def Bounded : Option Pending → Prop
  | none => True
  | some p => 0x80 ≤ p.low ∧ p.high ≤ 0xbf

theorem bounded_pendingOf {b : ℕ} : Bounded (pendingOf b) := by
  unfold pendingOf
  split_ifs <;> simp [Bounded]

theorem bounded_startByte (b : ℕ) : Bounded (startByte b).2 := by
  unfold startByte
  split_ifs
  · trivial
  · have h := bounded_pendingOf (b := b)
    cases hp : pendingOf b with
    | none => trivial
    | some p =>
      rw [hp] at h
      exact h

theorem bounded_feed (st : Option Pending) (b : ℕ) : Bounded (feed st b).2 := by
  unfold feed
  cases st with
  | none => exact bounded_startByte b
  | some p =>
    dsimp only
    split_ifs
    · trivial
    · simp [Bounded]
    · exact bounded_startByte b

theorem bounded_scan {st : Option Pending} (h : Bounded st) (x : Bytes) : Bounded (scan st x).2 := by
  induction x generalizing st with
  | nil => exact h
  | cons b bs ih => exact ih (bounded_feed st b.toNat)

/-- A byte that begins a character ends an unfinished sequence. -/
theorem decodeFrom_start {st : Option Pending} (h : Bounded st) {b : UInt8} (hb : ¬ Continuation b)
    (bs : Bytes) : decodeFrom st (b :: bs) = flush st ++ decodeFrom none (b :: bs) := by
  cases st with
  | none => rfl
  | some p =>
    have hnot : ¬ (p.low ≤ b.toNat ∧ b.toNat ≤ p.high) := fun hin =>
      hb ⟨h.1.trans hin.1, hin.2.trans h.2⟩
    rw [decodeFrom, decodeFrom]
    unfold feed
    dsimp only
    rw [if_neg hnot]
    rfl

/-- A text at the front of a file is read back by itself. -/
theorem decodeFrom_encode_append (t : Text) (bs : Bytes) :
    decodeFrom none (encode t ++ bs) = t.map some ++ decodeFrom none bs := by
  induction t with
  | nil => rfl
  | cons c cs ih =>
    rw [encode_cons, List.append_assoc, decodeFrom_encodeChar, ih]
    rfl

/-- A text between two parts of a file is read back by itself. -/
theorem decodeFrom_around (pre post : Bytes) {t : Text} (ht : t ≠ []) :
    decodeFrom none (pre ++ encode t ++ post) =
      decodeFrom none pre ++ t.map some ++ decodeFrom none post := by
  obtain ⟨c, cs, rfl⟩ := List.exists_cons_of_ne_nil ht
  obtain ⟨lead, rest, hchar, hlead, -⟩ := encodeChar_shape c
  rw [List.append_assoc, decodeFrom_append, decodeFrom_eq_scan none pre]
  have hstart : ∀ st, Bounded st → decodeFrom st (encode (c :: cs) ++ post) =
      flush st ++ decodeFrom none (encode (c :: cs) ++ post) := fun st hst => by
    rw [encode_cons, hchar]
    exact decodeFrom_start hst hlead _
  rw [hstart _ (bounded_scan (show Bounded none from trivial) pre), decodeFrom_encode_append]
  simp only [List.append_assoc]

theorem decodeReplace_around (pre post : Bytes) {t : Text} (ht : t ≠ []) :
    decodeReplace (pre ++ encode t ++ post) = decodeReplace pre ++ t ++ decodeReplace post := by
  unfold decodeReplace
  rw [decodeFrom_around pre post ht, List.map_append, List.map_append, List.map_map]
  congr 2
  exact List.map_id t

/-! ### Cuts -/

/-- The bytes of a text are cut between two characters, or inside one. -/
theorem encode_eq_append {t : Text} {x y : Bytes} (h : encode t = x ++ y) :
    (∃ s u, t = s ++ u ∧ x = encode s ∧ y = encode u) ∨
      ∃ s c u x' y', t = s ++ c :: u ∧ x = encode s ++ x' ∧ y = y' ++ encode u ∧
        encodeChar c = x' ++ y' ∧ x' ≠ [] ∧ y' ≠ [] := by
  induction t generalizing x with
  | nil =>
    obtain ⟨rfl, rfl⟩ := List.append_eq_nil_iff.1 h.symm
    exact .inl ⟨[], [], rfl, rfl, rfl⟩
  | cons c cs ih =>
    rw [encode_cons] at h
    rcases List.append_eq_append_iff.1 h with ⟨x', rfl, hx'⟩ | ⟨y', hy', rfl⟩
    · rcases ih hx' with ⟨s, u, rfl, rfl, rfl⟩ | ⟨s, d, u, x'', y', rfl, rfl, hy, hd, hx, hy'⟩
      · exact .inl ⟨c :: s, u, rfl, by rw [encode_cons], rfl⟩
      · exact .inr ⟨c :: s, d, u, x'', y', rfl, by rw [encode_cons, List.append_assoc], hy, hd, hx,
          hy'⟩
    · rcases eq_or_ne x [] with rfl | hx
      · refine .inl ⟨[], c :: cs, rfl, rfl, ?_⟩
        rw [encode_cons, hy', List.nil_append]
      rcases eq_or_ne y' [] with rfl | hy
      · refine .inl ⟨[c], cs, rfl, ?_, rfl⟩
        rw [← List.append_nil x, ← hy', encode_cons]
        exact (List.append_nil _).symm
      · exact .inr ⟨[], c, cs, x, y', rfl, rfl, rfl, hy', hx, hy⟩

theorem startByte_ne_nil (b : ℕ) : (startByte b).1 ≠ [] ∨ (startByte b).2.isSome := by
  unfold startByte
  split_ifs
  · simp
  · cases pendingOf b <;> simp

/-- An unfinished sequence gives a character, whatever follows. -/
theorem decodeFrom_pending_ne_nil (p : Pending) (x : Bytes) : decodeFrom (some p) x ≠ [] := by
  induction x generalizing p with
  | nil => exact List.cons_ne_nil _ _
  | cons b bs ih =>
    rw [decodeFrom]
    unfold feed
    dsimp only
    split_ifs
    · exact List.cons_ne_nil _ _
    · exact ih _
    · exact List.cons_ne_nil _ _

/-- Bytes give at least one character. -/
theorem decodeFrom_ne_nil (st : Option Pending) {x : Bytes} (hx : x ≠ []) :
    decodeFrom st x ≠ [] := by
  cases st with
  | some p => exact decodeFrom_pending_ne_nil p x
  | none =>
    obtain ⟨b, bs, rfl⟩ := List.exists_cons_of_ne_nil hx
    rw [decodeFrom, feed]
    rcases startByte_ne_nil b.toNat with hout | hstate
    · exact fun h => hout (List.append_eq_nil_iff.1 h).1
    · obtain ⟨p, hp⟩ := Option.isSome_iff_exists.1 hstate
      rw [hp]
      exact fun h => decodeFrom_pending_ne_nil p bs (List.append_eq_nil_iff.1 h).2

/-- Bytes that begin no character are replaced one by one. -/
theorem decodeFrom_continuations {x : Bytes} (h : ∀ b ∈ x, Continuation b) (bs : Bytes) :
    decodeFrom none (x ++ bs) = (x.map fun _ => none) ++ decodeFrom none bs := by
  induction x with
  | nil => rfl
  | cons b bs ih =>
    obtain ⟨hb, hbs⟩ := List.forall_mem_cons.1 h
    have hpending : pendingOf b.toNat = none := by
      have := hb.2
      unfold pendingOf
      split_ifs <;> first
        | omega
        | rfl
    have hstart : feed none b.toNat = ([none], none) := by
      rw [feed, startByte, if_neg (not_lt.2 hb.1), hpending]
    rw [List.cons_append, decodeFrom, hstart, ih hbs]
    rfl

/-- No byte of the second half of a character begins one. -/
theorem continuation_of_cut {c : Char} {x y : Bytes} (h : encodeChar c = x ++ y) (hx : x ≠ []) {b : UInt8}
    (hb : b ∈ y) : Continuation b := by
  obtain ⟨lead, rest, hchar, -, hrest⟩ := encodeChar_shape c
  obtain ⟨d, ds, rfl⟩ := List.exists_cons_of_ne_nil hx
  rw [h, List.cons_append] at hchar
  obtain ⟨rfl, rfl⟩ := List.cons.inj hchar
  exact hrest b (List.mem_append_right _ hb)

/-- The first half of a character is read as one replacement. -/
theorem decodeFrom_of_cut {c : Char} {x y : Bytes} (h : encodeChar c = x ++ y) (hx : x ≠ [])
    (hy : y ≠ []) : decodeFrom none x = [none] := by
  -- the whole sequence gives one character, and the second half gives at least one
  have hwhole := decodeFrom_encodeChar c []
  rw [List.append_nil, h, decodeFrom_append] at hwhole
  have hsecond := decodeFrom_ne_nil (scan none x).2 hy
  have hfirst := decodeFrom_ne_nil none hx
  have hlength := congrArg List.length hwhole
  have hpos := List.length_pos_of_ne_nil hsecond
  rw [List.length_append] at hlength
  simp only [decodeFrom, List.length_cons, List.length_nil] at hlength
  have hnil : (scan none x).1 = [] := List.eq_nil_of_length_eq_zero (by omega)
  rw [decodeFrom_eq_scan, hnil, List.nil_append] at hfirst ⊢
  cases hstate : (scan none x).2 with
  | none =>
    rw [hstate] at hfirst
    exact absurd rfl hfirst
  | some p => rfl

/-- The bytes of a text are not cut inside a character behind the bytes of another text. -/
theorem exists_of_encode_append {s t : Text} {y : Bytes} (h : encode t = encode s ++ y) :
    ∃ u, t = s ++ u ∧ y = encode u := by
  rcases encode_eq_append h with ⟨s', u, rfl, hs, rfl⟩ | ⟨s', c, u, x', y', -, hs, -, hc, hx, hy⟩
  · rw [encode_injective hs]
    exact ⟨u, rfl, rfl⟩
  · -- the first half of a character is read as a replacement, and a text is not
    have hread := decodeFrom_encode s
    rw [hs, decodeFrom_encode_append, decodeFrom_of_cut hc hx hy] at hread
    have hmem : (none : Decoded) ∈ s.map some :=
      hread ▸ List.mem_append_right _ List.mem_cons_self
    simp at hmem

/-- A carriage return is one byte, and no other character holds it. -/
theorem count_encode (t : Text) : (encode t).count 13 = t.count '\r' := by
  induction t with
  | nil => rfl
  | cons c cs ih =>
    rw [encode_cons, List.count_append, ih, List.count_cons, add_comm]
    congr 1
    by_cases hc : c = '\r'
    · subst hc
      rfl
    · rw [if_neg (by simpa using hc), List.count_eq_zero]
      intro hmem
      have hne : c.toNat ≠ 13 := fun h => hc (Char.toNat_inj.1 h)
      have hbyte : ∀ {n : ℕ}, n < 256 → n ≠ 13 → (13 : UInt8) ≠ UInt8.ofNat n := fun hlt hn h => by
        have := congrArg UInt8.toNat h
        rw [toNat_ofNat_of_lt hlt] at this
        exact hn this.symm
      have hr := char_toNat_range c
      unfold encodeChar at hmem
      generalize c.toNat = n at hmem hne hr
      dsimp only at hmem
      split_ifs at hmem
      · exact hbyte (by omega) hne (List.mem_singleton.1 hmem)
      all_goals simp only [List.mem_cons, List.not_mem_nil, or_false] at hmem
      · rcases hmem with h | h <;> exact hbyte (by omega) (by omega) h
      · rcases hmem with h | h | h <;> exact hbyte (by omega) (by omega) h
      · rcases hmem with h | h | h | h <;> exact hbyte (by omega) (by omega) h

end Python
end OpenFoamAgent
