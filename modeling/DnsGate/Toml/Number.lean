import DnsGate.Text.Digits
import DnsGate.Text.Magnitude

/-!
Numbers of settings files.  Integers are decimal with an optional sign, or hexadecimal, octal or
binary after `0x`, `0o` and `0b`; floats have a fraction, an exponent or both.  Single underscores
may stand between digits, and decimal integers have no needless zero in front.
-/

namespace DnsGate.Toml

/-! ## Digits -/

/-- Takes the underscores out of a run of digits; each must stand between two digits. -/
def ungroup? (base : Nat) : List Char → Option (List Char)
  | [] => none
  | [c] => if (Text.digit? base c).isSome then some [c] else none
  | c :: '_' :: cs =>
    if (Text.digit? base c).isSome then (ungroup? base cs).map (c :: ·) else none
  | c :: cs => if (Text.digit? base c).isSome then (ungroup? base cs).map (c :: ·) else none

/-- The number that grouped digits write. -/
def grouped? (base : Nat) (cs : List Char) : Option Nat :=
  (ungroup? base cs).bind (Text.readNat? base)

/-- Decimal digits without a needless zero in front. -/
def decimalDigits? (cs : List Char) : Option (List Char) :=
  (ungroup? 10 cs).filter (fun ds => ds.length = 1 ∨ ds.head? ≠ some '0')

/-- Whether a text starts with a minus, and the text without its sign. -/
def splitSign : List Char → Bool × List Char
  | '-' :: cs => (true, cs)
  | '+' :: cs => (false, cs)
  | cs => (false, cs)

/-! ## Integers -/

/-- The integer that a whole text writes. -/
def integer? : List Char → Option Int
  | '0' :: 'x' :: cs => (grouped? 16 cs).map Int.ofNat
  | '0' :: 'o' :: cs => (grouped? 8 cs).map Int.ofNat
  | '0' :: 'b' :: cs => (grouped? 2 cs).map Int.ofNat
  | cs =>
    let (negative, ds) := splitSign cs
    ((decimalDigits? ds).bind (Text.readNat? 10)).map
      fun n => if negative then -(n : Int) else n

/-! ## Floats -/

/-- Splits off what a number has of digits and underscores. -/
def spanDigits (cs : List Char) : List Char × List Char :=
  cs.span (fun c => c.isDigit || c == '_')

/-- The digits after the point, if there is a point, and what follows. -/
def fraction? : List Char → Option (List Char × List Char)
  | '.' :: cs =>
    let (ds, rest) := spanDigits cs
    (ungroup? 10 ds).map (·, rest)
  | cs => some ([], cs)

/-- The number after the exponent mark, up to the end. -/
def exponent? : List Char → Option Int
  | [] => some 0
  | c :: cs =>
    if c = 'e' ∨ c = 'E' then
      let (negative, ds) := splitSign cs
      (grouped? 10 ds).map fun n => if negative then -(n : Int) else n
    else none

/-- Whether a text without sign writes a float that is finite, or one of the two words for floats
that are not. -/
def isUnsignedFloat (cs : List Char) : Bool :=
  if cs = ['i', 'n', 'f'] ∨ cs = ['n', 'a', 'n'] then true
  else
    let (whole, rest) := spanDigits cs
    match decimalDigits? whole, fraction? rest with
    | some whole, some (frac, rest) =>
      let bare := frac.isEmpty && rest.isEmpty
      match Text.readNat? 10 (whole ++ frac), exponent? rest with
      | some mantissa, some e =>
        !bare && !Text.overflows mantissa (whole.length + frac.length) (e - frac.length)
      | _, _ => false
    | _, _ => false

/-- Whether a whole text writes a float. -/
def isFloat (cs : List Char) : Bool := isUnsignedFloat (splitSign cs).2

end DnsGate.Toml
