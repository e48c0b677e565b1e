import DnsGate.Binary.Utf8

/-!
Domain names: lists of labels, each a string of bytes, the one nearest the root last.  The text of
a name joins its labels with dots and ends in one; bytes that are not ordinary in host names are
escaped, so that a dot in the text that is not escaped ends a label.
-/

namespace DnsGate.Dns

/-- A label: what stands between two dots of a name. -/
abbrev Label := Bytes

/-- A domain name.  The root has no labels. -/
structure Name where
  labels : List Label
deriving DecidableEq, Repr

namespace Name

/-- The name of the root. -/
def root : Name := ⟨[]⟩

/-! ## Bounds -/

/-- The bytes that the labels take on the wire, with the byte before each. -/
def labelsLength : List Label → Nat
  | [] => 0
  | l :: ls => l.length + 1 + labelsLength ls

/-- The bytes that the name takes on the wire when nothing is shared. -/
def wireLength (n : Name) : Nat := labelsLength n.labels + 1

/-- Labels of one to 63 bytes, in all at most 255 bytes on the wire. -/
def WellFormed (n : Name) : Prop :=
  (∀ l ∈ n.labels, 1 ≤ l.length ∧ l.length ≤ 63) ∧ n.wireLength ≤ 255

instance (n : Name) : Decidable n.WellFormed := inferInstanceAs (Decidable (_ ∧ _))

/-! ## Text -/

/-- The octal digits of a byte, three of them. -/
def octal (b : UInt8) : List Char :=
  [b.toNat / 64, b.toNat / 8 % 8, b.toNat % 8].map Nat.digitChar

/-- A byte as the text of a name has it.  Letters, digits, `_`, a `-` that is not first and a `*`
that is first stand for themselves; other visible characters follow a backslash, and other bytes
are three octal digits after one. -/
def byteText (first : Bool) (b : UInt8) : List Char :=
  let c := Char.ofNat b.toNat
  if c.isAlphanum || c == '_' || (c == '-' && !first) || (c == '*' && first) then [c]
  else if 0x21 ≤ b && b ≤ 0x7E then ['\\', c]
  else '\\' :: octal b

def labelText : Label → List Char
  | [] => []
  | b :: bs => byteText true b ++ bs.flatMap (byteText false)

/-- The text of a name on characters. -/
def asciiChars (n : Name) : List Char :=
  if n.labels.isEmpty then ['.'] else n.labels.flatMap (fun l => labelText l ++ ['.'])

/-- The text of a name. -/
def ascii (n : Name) : String := String.ofList n.asciiChars

/-! ## Case -/

/-- A byte with ASCII capital letters made small. -/
def foldByte (b : UInt8) : UInt8 := if 0x41 ≤ b && b ≤ 0x5A then b + 0x20 else b

/-- Names that differ in ASCII case only. -/
def SameUpToCase (m n : Name) : Prop :=
  m.labels.map (List.map foldByte) = n.labels.map (List.map foldByte)

instance (m n : Name) : Decidable (SameUpToCase m n) := inferInstanceAs (Decidable (_ = _))

end Name

end DnsGate.Dns
