/-!
Numbers in positional notation: reading digits in a base, and the unsigned decimal numbers of
bounded size that settings and addresses hold.
-/

namespace DnsGate.Text

/-- The value of a digit in a base of at most 36, letters in either case. -/
def digit? (base : Nat) (c : Char) : Option Nat :=
  let v :=
    if '0' ≤ c && c ≤ '9' then c.toNat - '0'.toNat
    else if 'a' ≤ c && c ≤ 'z' then c.toNat - 'a'.toNat + 10
    else if 'A' ≤ c && c ≤ 'Z' then c.toNat - 'A'.toNat + 10
    else base
  if v < base then some v else none

/-- The number that the digits write, most significant first, after `acc`. -/
def readDigits? (base : Nat) : Nat → List Char → Option Nat
  | acc, [] => some acc
  | acc, c :: cs => do readDigits? base (acc * base + (← digit? base c)) cs

/-- A number of at least one digit. -/
def readNat? (base : Nat) (cs : List Char) : Option Nat :=
  if cs.isEmpty then none else readDigits? base 0 cs

/-- A decimal number below `bound`, which may have a plus sign before its digits. -/
def readBounded? (bound : Nat) (cs : List Char) : Option Nat :=
  let digits := match cs with
    | '+' :: rest => rest
    | _ => cs
  (readNat? 10 digits).filter (· < bound)

/-- The decimal digits of a number. -/
def decimal (n : Nat) : String := String.ofList (Nat.toDigits 10 n)

end DnsGate.Text
