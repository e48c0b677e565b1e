/-!
Numbers of a width: what fits into so many bits.
-/

namespace DnsGate.Width

/-- How many numbers so many bits write. -/
def capacity (bits : Nat) : Nat := Nat.pow 2 bits

/-- Whether a number fits into 64 bits with a sign. -/
def fits64 (n : Int) : Bool := decide (-(capacity 63 : Int) ≤ n ∧ n < capacity 63)

/-- Whether a number fits into 128 bits, with a sign or without. -/
def fits128 (n : Int) : Bool := decide (-(capacity 127 : Int) ≤ n ∧ n < capacity 128)

end DnsGate.Width
