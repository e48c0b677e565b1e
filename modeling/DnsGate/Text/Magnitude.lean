/-!
Decimal numbers and the range of double precision.
-/

namespace DnsGate.Text

/-- The least magnitude that rounds to infinity in double precision. -/
def floatBound : Nat := Nat.pow 2 1024 - Nat.pow 2 970

/-- Whether `mantissa · 10 ^ exponent` rounds to infinity, where the mantissa has at most `width`
digits. -/
def overflows (mantissa width : Nat) (exponent : Int) : Bool :=
  if mantissa = 0 ∨ exponent + width < 300 then false
  else if 400 + (width : Int) < exponent then true
  else if 0 ≤ exponent then decide (floatBound ≤ mantissa * Nat.pow 10 exponent.toNat)
  else decide (floatBound * Nat.pow 10 (-exponent).toNat ≤ mantissa)

end DnsGate.Text
