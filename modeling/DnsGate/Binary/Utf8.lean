/-!
Bytes as UTF-8 text.  `units` reads a byte string as a list in which every well-formed sequence
is its character and every maximal ill-formed piece is `none`; the strict reading refuses the
latter and the lossy one puts U+FFFD in their place.
-/

namespace DnsGate

/-- Byte strings. -/
abbrev Bytes := List UInt8

namespace Utf8

/-! ## One sequence -/

/-- What the first byte of a longer sequence says: how many bytes follow, the range of the first
of them, and the bits of the character that the byte holds. -/
structure Lead where
  follow : Nat
  low : UInt8
  high : UInt8
  bits : Nat

/-- The first bytes of sequences of two to four bytes (Unicode, table 3-7). -/
def lead? (b : UInt8) : Option Lead :=
  if 0xC2 ≤ b && b ≤ 0xDF then some ⟨1, 0x80, 0xBF, b.toNat - 0xC0⟩
  else if b == 0xE0 then some ⟨2, 0xA0, 0xBF, 0⟩
  else if b == 0xED then some ⟨2, 0x80, 0x9F, 13⟩
  else if 0xE1 ≤ b && b ≤ 0xEF then some ⟨2, 0x80, 0xBF, b.toNat - 0xE0⟩
  else if b == 0xF0 then some ⟨3, 0x90, 0xBF, 0⟩
  else if 0xF1 ≤ b && b ≤ 0xF3 then some ⟨3, 0x80, 0xBF, b.toNat - 0xF0⟩
  else if b == 0xF4 then some ⟨3, 0x80, 0x8F, 4⟩
  else none

/-- Reads `follow` more bytes of a sequence, the first of them between `low` and `high`.  The
second part is what was not read. -/
def finish (low high : UInt8) (bits : Nat) : Nat → Bytes → Option Char × Bytes
  | 0, bs => (some (Char.ofNat bits), bs)
  | _ + 1, [] => (none, [])
  | n + 1, b :: bs =>
    if low ≤ b && b ≤ high then finish 0x80 0xBF (bits * 64 + (b.toNat - 0x80)) n bs
    else (none, b :: bs)

theorem finish_length_le (low high : UInt8) (bits n : Nat) (bs : Bytes) :
    (finish low high bits n bs).2.length ≤ bs.length := by
  induction n generalizing low high bits bs with
  | zero => simp [finish]
  | succ n ih =>
    cases bs with
    | nil => simp [finish]
    | cons b bs =>
      simp only [finish]
      split
      · exact Nat.le_succ_of_le (ih ..)
      · simp

/-- The first unit of the bytes `b :: bs` and the bytes after it. -/
def unit (b : UInt8) (bs : Bytes) : Option Char × Bytes :=
  if b < 0x80 then (some (Char.ofNat b.toNat), bs)
  else match lead? b with
    | some l => finish l.low l.high l.bits l.follow bs
    | none => (none, bs)

theorem unit_length_le (b : UInt8) (bs : Bytes) : (unit b bs).2.length ≤ bs.length := by
  unfold unit
  split
  · simp
  · split
    · exact finish_length_le ..
    · simp

/-! ## Whole byte strings -/

/-- The characters of the bytes, with `none` for every maximal ill-formed piece. -/
def units : Bytes → List (Option Char)
  | [] => []
  | b :: bs => (unit b bs).1 :: units (unit b bs).2
termination_by bs => bs.length
decreasing_by exact Nat.lt_succ_of_le (unit_length_le b bs)

/-- The text of the bytes, if they are well-formed. -/
def decode? (bs : Bytes) : Option String := ((units bs).mapM id).map String.ofList

/-- The text of the bytes, with U+FFFD for every maximal ill-formed piece. -/
def decodeLossy (bs : Bytes) : String :=
  String.ofList ((units bs).map (fun u => u.getD '\uFFFD'))

/-- The UTF-8 bytes of a text. -/
def encode (s : String) : Bytes := s.toList.flatMap String.utf8EncodeChar

end Utf8

end DnsGate
