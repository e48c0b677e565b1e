import DnsGate.Toml.Moment
import DnsGate.Toml.Number

/-!
Scalars of settings files.  Floats and moments are read and kept as written, but no setting is one,
so that their values are not worked out.
-/

namespace DnsGate.Toml

/-- What a scalar stands for. -/
inductive Scalar where
  | text (s : String)
  | integer (n : Int)
  | boolean (b : Bool)
  | float
  | moment
deriving DecidableEq, Repr

/-- The scalar that a whole text without quotes writes. -/
def Scalar.ofBare? (cs : List Char) : Option Scalar :=
  if cs = ['t', 'r', 'u', 'e'] then some (.boolean true)
  else if cs = ['f', 'a', 'l', 's', 'e'] then some (.boolean false)
  else match integer? cs with
    | some n => some (.integer n)
    | none =>
      if isFloat cs then some .float
      else if isMoment cs then some .moment
      else none

/-- The characters that scalars without quotes consist of. -/
def isBareValue (c : Char) : Bool :=
  c.isAlphanum || c == '_' || c == '+' || c == '-' || c == '.' || c == ':'

/-- Splits off a scalar without quotes.  A blank between a date and a time is part of it. -/
def spanBare (cs : List Char) : List Char × List Char :=
  let (raw, rest) := cs.span isBareValue
  match afterDate? raw, rest with
  | some [], ' ' :: c :: more =>
    if c.isDigit then
      let (time, rest) := (c :: more).span isBareValue
      (raw ++ ' ' :: time, rest)
    else (raw, rest)
  | _, _ => (raw, rest)

end DnsGate.Toml
