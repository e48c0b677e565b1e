import DnsGate.Binary.Utf8

/-!
Unsigned numbers as bytes, the most significant first.
-/

namespace DnsGate.BigEndian

/-- The low `width` bytes of a number. -/
def encode : (width : Nat) → Nat → Bytes
  | 0, _ => []
  | w + 1, n => encode w (n / 256) ++ [UInt8.ofNat (n % 256)]

/-- The number that the bytes write. -/
def value (bs : Bytes) : Nat := bs.foldl (fun acc b => acc * 256 + b.toNat) 0

@[simp] theorem length_encode (w n : Nat) : (encode w n).length = w := by
  induction w generalizing n with
  | zero => rfl
  | succ w ih => simp [encode, ih]

theorem value_append_singleton (bs : Bytes) (b : UInt8) :
    value (bs ++ [b]) = value bs * 256 + b.toNat := by
  simp [value]

/-- What is written is read back if it has room. -/
theorem value_encode {w n : Nat} (h : n < Nat.pow 256 w) : value (encode w n) = n := by
  induction w generalizing n with
  | zero => exact (Nat.lt_one_iff.mp h).symm
  | succ w ih =>
    have hq : n / 256 < Nat.pow 256 w := Nat.div_lt_of_lt_mul (Nat.mul_comm .. ▸ h)
    rw [encode, value_append_singleton, ih hq, UInt8.toNat_ofNat']
    omega

/-- Bytes are written back from their value. -/
theorem encode_value {w : Nat} {bs : Bytes} (h : bs.length = w) : encode w (value bs) = bs := by
  induction w generalizing bs with
  | zero => rw [List.length_eq_zero_iff.mp h]; rfl
  | succ w ih =>
    obtain rfl | ⟨front, b, rfl⟩ := List.eq_nil_or_concat bs
    · cases h
    · have hb : b.toNat < 256 := b.toNat_lt
      have hfront : front.length = w := by simpa using h
      have hrest : (value front * 256 + b.toNat) / 256 = value front := by omega
      have hlast : (value front * 256 + b.toNat) % 256 = b.toNat := by omega
      rw [List.concat_eq_append, encode, value_append_singleton, hrest, hlast, ih hfront, UInt8.ofNat_toNat]

theorem value_lt {w : Nat} {bs : Bytes} (h : bs.length = w) : value bs < Nat.pow 256 w := by
  induction w generalizing bs with
  | zero => rw [List.length_eq_zero_iff.mp h]; decide
  | succ w ih =>
    obtain rfl | ⟨front, b, rfl⟩ := List.eq_nil_or_concat bs
    · cases h
    · have hb : b.toNat < 256 := b.toNat_lt
      have hfront : value front < Nat.pow 256 w := ih (by simpa using h)
      rw [List.concat_eq_append, value_append_singleton]
      show _ < Nat.pow 256 w * 256
      omega

end DnsGate.BigEndian
