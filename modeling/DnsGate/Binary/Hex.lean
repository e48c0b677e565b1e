import DnsGate.Binary.Utf8
import DnsGate.Text.Digits

/-!
Bytes as hexadecimal digits, two to a byte, written in lower case and read in either.  Main
statement: reading what was written gives the bytes back.
-/

namespace DnsGate.Hex

/-- The two digits of a byte. -/
def digits (b : UInt8) : List Char :=
  [Nat.digitChar (b.toNat / 16), Nat.digitChar (b.toNat % 16)]

/-- The digits of bytes. -/
def encode (bs : Bytes) : String := String.ofList (bs.flatMap digits)

/-- The bytes that characters write. -/
def decodeChars? : List Char → Option Bytes
  | [] => some []
  | [_] => none
  | h :: l :: cs => do
    let high ← Text.digit? 16 h
    let low ← Text.digit? 16 l
    return UInt8.ofNat (high * 16 + low) :: (← decodeChars? cs)

/-- The bytes that a text writes. -/
def decode? (s : String) : Option Bytes := decodeChars? s.toList

theorem digit?_digitChar : ∀ n < 16, Text.digit? 16 (Nat.digitChar n) = some n := by decide

theorem decodeChars?_digits (b : UInt8) (cs : List Char) :
    decodeChars? (digits b ++ cs) = (decodeChars? cs).map (b :: ·) := by
  have hb : b.toNat < 256 := b.toNat_lt
  have hhigh := digit?_digitChar (b.toNat / 16) (by omega)
  have hlow := digit?_digitChar (b.toNat % 16) (by omega)
  have hvalue : UInt8.ofNat (b.toNat / 16 * 16 + b.toNat % 16) = b := by
    rw [Nat.div_add_mod']
    exact UInt8.ofNat_toNat
  simp only [digits, List.cons_append, List.nil_append, decodeChars?, hhigh, hlow]
  cases decodeChars? cs with
  | none => rfl
  | some bs => exact congrArg (fun c => some (c :: bs)) hvalue

theorem decode?_encode (bs : Bytes) : decode? (encode bs) = some bs := by
  rw [decode?, encode, String.toList_ofList]
  induction bs with
  | nil => rfl
  | cons b bs ih => rw [List.flatMap_cons, decodeChars?_digits, ih, Option.map_some]

end DnsGate.Hex
