/-
# UTF-8 files

`str.encode("utf-8")`, `bytes.decode("utf-8")` and
`bytes.decode("utf-8", errors="replace")`: how a text becomes the bytes of a
file and how the bytes of any file are read as a text.

The decoder is a machine fed one byte at a time. A sequence that is broken off
gives one `U+FFFD` for the bytes it had, and the byte that broke it is read
again as the first of a new sequence, so each maximal ill-formed part is
replaced once.
-/
import OpenFoamAgent.Python.Text

namespace OpenFoamAgent
namespace Python

/-- The content of a file. -/
abbrev Bytes := List UInt8

/-- The UTF-8 sequence of one character. -/
def encodeChar (c : Char) : Bytes :=
  let n := c.toNat
  if n < 0x80 then [UInt8.ofNat n]
  else if n < 0x800 then [UInt8.ofNat (0xc0 + n / 64), UInt8.ofNat (0x80 + n % 64)]
  else if n < 0x10000 then
    [UInt8.ofNat (0xe0 + n / 4096), UInt8.ofNat (0x80 + n / 64 % 64), UInt8.ofNat (0x80 + n % 64)]
  else
    [UInt8.ofNat (0xf0 + n / 262144), UInt8.ofNat (0x80 + n / 4096 % 64),
      UInt8.ofNat (0x80 + n / 64 % 64), UInt8.ofNat (0x80 + n % 64)]

/-- `text.encode("utf-8")`. -/
def encode (t : Text) : Bytes := t.flatMap encodeChar

/-- An unfinished sequence: how many bytes are still to come, the bits read so
far, and the range the next byte must lie in. -/
structure Pending where
  remaining : ℕ
  bits : ℕ
  low : ℕ
  high : ℕ
  deriving DecidableEq

/-- The sequence that the lead byte `b` opens. -/
def pendingOf (b : ℕ) : Option Pending :=
  if 0xc2 ≤ b ∧ b ≤ 0xdf then some ⟨1, b - 0xc0, 0x80, 0xbf⟩
  else if b = 0xe0 then some ⟨2, 0, 0xa0, 0xbf⟩
  else if b = 0xed then some ⟨2, 13, 0x80, 0x9f⟩
  else if 0xe1 ≤ b ∧ b ≤ 0xef then some ⟨2, b - 0xe0, 0x80, 0xbf⟩
  else if b = 0xf0 then some ⟨3, 0, 0x90, 0xbf⟩
  else if 0xf1 ≤ b ∧ b ≤ 0xf3 then some ⟨3, b - 0xf0, 0x80, 0xbf⟩
  else if b = 0xf4 then some ⟨3, 4, 0x80, 0x8f⟩
  else none

/-- One character read from a file: decoded, or the place of an ill-formed part. -/
abbrev Decoded := Option Char

/-- A byte read between two sequences. -/
def startByte (b : ℕ) : List Decoded × Option Pending :=
  if b < 0x80 then ([some (Char.ofNat b)], none)
  else match pendingOf b with
    | some p => ([], some p)
    | none => ([none], none)

/-- A byte read in the state `st`. -/
def feed (st : Option Pending) (b : ℕ) : List Decoded × Option Pending :=
  match st with
  | none => startByte b
  | some p =>
    if p.low ≤ b ∧ b ≤ p.high then
      let bits := p.bits * 64 + (b - 0x80)
      if p.remaining ≤ 1 then ([some (Char.ofNat bits)], none)
      else ([], some ⟨p.remaining - 1, bits, 0x80, 0xbf⟩)
    else (none :: (startByte b).1, (startByte b).2)

/-- The decoder from the state `st` on. -/
def decodeFrom (st : Option Pending) : Bytes → List Decoded
  | [] => match st with
    | none => []
    | some _ => [none]
  | b :: bs => (feed st b.toNat).1 ++ decodeFrom (feed st b.toNat).2 bs

/-- `data.decode("utf-8")`, `none` when it raises `UnicodeDecodeError`. -/
def decode (data : Bytes) : Option Text :=
  (decodeFrom none data).mapM id

/-- `data.decode("utf-8", errors="replace")`. -/
def decodeReplace (data : Bytes) : Text :=
  (decodeFrom none data).map fun d => d.getD (Char.ofNat 0xfffd)

theorem toNat_ofNat_of_lt {n : ℕ} (h : n < 256) : (UInt8.ofNat n).toNat = n := by
  simp [Nat.mod_eq_of_lt h]

/-- The code points of characters leave out the surrogates. -/
theorem char_toNat_range (c : Char) :
    c.toNat < 0xd800 ∨ (0xdfff < c.toNat ∧ c.toNat < 0x110000) := by
  have h := c.valid
  simp only [UInt32.isValidChar, Nat.isValidChar] at h
  exact h

theorem decodeFrom_ofNat {n : ℕ} (h : n < 256) (st : Option Pending) (bs : Bytes) :
    decodeFrom st (UInt8.ofNat n :: bs) = (feed st n).1 ++ decodeFrom (feed st n).2 bs := by
  rw [decodeFrom, toNat_ofNat_of_lt h]

/-- The last byte of a sequence gives its character. -/
theorem feed_last {bits low high b : ℕ} (hl : low ≤ b) (hh : b ≤ high) :
    feed (some ⟨1, bits, low, high⟩) b = ([some (Char.ofNat (bits * 64 + (b - 0x80)))], none) := by
  simp [feed, hl, hh]

/-- An inner byte of a sequence adds its six bits. -/
theorem feed_inner {k bits low high b : ℕ} (hl : low ≤ b) (hh : b ≤ high) :
    feed (some ⟨k + 2, bits, low, high⟩) b =
      ([], some ⟨k + 1, bits * 64 + (b - 0x80), 0x80, 0xbf⟩) := by
  simp [feed, hl, hh]

theorem feed_lead {b : ℕ} {p : Pending} (h : 0x80 ≤ b) (hp : pendingOf b = some p) :
    feed none b = ([], some p) := by
  simp [feed, startByte, hp, show ¬ b < 0x80 by omega]

theorem pending_congr {k bits bits' low high : ℕ} (h : bits = bits') :
    some (Pending.mk k bits low high) = some ⟨k, bits', low, high⟩ := by
  rw [h]

/-- The lead byte of a three-byte sequence, with the range it sets for the second byte. -/
theorem pendingOf_three {n : ℕ} (h : n < 0x10000) (h3 : 0x800 ≤ n)
    (hs : n < 0xd800 ∨ 0xdfff < n) :
    ∃ low high, pendingOf (0xe0 + n / 4096) = some ⟨2, n / 4096, low, high⟩ ∧
      low ≤ 0x80 + n / 64 % 64 ∧ 0x80 + n / 64 % 64 ≤ high := by
  unfold pendingOf
  split_ifs <;> first
    | omega
    | exact ⟨_, _, pending_congr (by omega), by omega, by omega⟩

/-- The lead byte of a four-byte sequence, with the range it sets for the second byte. -/
theorem pendingOf_four {n : ℕ} (h : n < 0x110000) (h4 : 0x10000 ≤ n) :
    ∃ low high, pendingOf (0xf0 + n / 262144) = some ⟨3, n / 262144, low, high⟩ ∧
      low ≤ 0x80 + n / 4096 % 64 ∧ 0x80 + n / 4096 % 64 ≤ high := by
  unfold pendingOf
  split_ifs <;> first
    | omega
    | exact ⟨_, _, pending_congr (by omega), by omega, by omega⟩

/-- One encoded character is read back, and the decoder is then between two
sequences. One case for each length of the UTF-8 sequence. -/
theorem decodeFrom_encodeChar (c : Char) (bs : Bytes) :
    decodeFrom none (encodeChar c ++ bs) = some c :: decodeFrom none bs := by
  have hr := char_toNat_range c
  have hc : Char.ofNat c.toNat = c := Char.ofNat_toNat c
  unfold encodeChar
  generalize c.toNat = n at hr hc
  dsimp only
  split_ifs with h1 h2 h3
  · rw [List.cons_append, List.nil_append, decodeFrom_ofNat (by omega)]
    simp [feed, startByte, h1, hc]
  · have hp : pendingOf (0xc0 + n / 64) = some ⟨1, n / 64, 0x80, 0xbf⟩ := by
      rw [pendingOf, if_pos (by omega)]
      exact pending_congr (by omega)
    simp only [List.cons_append, List.nil_append]
    rw [decodeFrom_ofNat (by omega), feed_lead (by omega) hp, List.nil_append,
      decodeFrom_ofNat (by omega), feed_last (by omega) (by omega),
      show n / 64 * 64 + (0x80 + n % 64 - 0x80) = n by omega, hc, List.singleton_append]
  · obtain ⟨low, high, hp, hl, hh⟩ := pendingOf_three h3 (by omega) (by omega)
    simp only [List.cons_append, List.nil_append]
    rw [decodeFrom_ofNat (by omega), feed_lead (by omega) hp, List.nil_append,
      decodeFrom_ofNat (by omega), feed_inner hl hh, List.nil_append,
      decodeFrom_ofNat (by omega), feed_last (by omega) (by omega),
      show (n / 4096 * 64 + (0x80 + n / 64 % 64 - 0x80)) * 64 + (0x80 + n % 64 - 0x80) = n by omega,
      hc, List.singleton_append]
  · obtain ⟨low, high, hp, hl, hh⟩ := pendingOf_four (n := n) (by omega) (by omega)
    simp only [List.cons_append, List.nil_append]
    rw [decodeFrom_ofNat (by omega), feed_lead (by omega) hp, List.nil_append,
      decodeFrom_ofNat (by omega), feed_inner hl hh, List.nil_append,
      decodeFrom_ofNat (by omega), feed_inner (by omega) (by omega), List.nil_append,
      decodeFrom_ofNat (by omega), feed_last (by omega) (by omega),
      show ((n / 262144 * 64 + (0x80 + n / 4096 % 64 - 0x80)) * 64 +
        (0x80 + n / 64 % 64 - 0x80)) * 64 + (0x80 + n % 64 - 0x80) = n by omega,
      hc, List.singleton_append]

theorem decodeFrom_encode (t : Text) : decodeFrom none (encode t) = t.map some := by
  induction t with
  | nil => rfl
  | cons c cs ih =>
    rw [encode, List.flatMap_cons, decodeFrom_encodeChar, List.map_cons, ← ih, encode]

/-- A written text is read back as it was written. -/
theorem decodeReplace_encode (t : Text) : decodeReplace (encode t) = t := by
  rw [decodeReplace, decodeFrom_encode, List.map_map]
  exact List.map_id t

/-- Two texts with the same bytes are one text. -/
theorem encode_injective : Function.Injective encode := by
  intro s t h
  rw [← decodeReplace_encode s, h, decodeReplace_encode]

end Python
end OpenFoamAgent
