/-!
Blank space in text: which characters are blank, trimming them off both ends, and the fields
that stand between them.  The blanks are the characters with the Unicode property White_Space.
-/

namespace DnsGate.Text

/-! ## Blank characters -/

/-- The characters with the Unicode property White_Space. -/
def isBlank (c : Char) : Bool :=
  let n := c.toNat
  (0x09 ≤ n && n ≤ 0x0D) || n == 0x20 || n == 0x85 || n == 0xA0 || n == 0x1680 ||
    (0x2000 ≤ n && n ≤ 0x200A) || n == 0x2028 || n == 0x2029 || n == 0x202F ||
    n == 0x205F || n == 0x3000

/-! ## Trimming -/

/-- The text without the blanks it starts and ends with, on characters. -/
def trimChars (cs : List Char) : List Char :=
  ((cs.dropWhile isBlank).reverse.dropWhile isBlank).reverse

/-- The text without the blanks it starts and ends with. -/
def trim (s : String) : String := String.ofList (trimChars s.toList)

@[simp] theorem toList_trim (s : String) : (trim s).toList = trimChars s.toList := by
  simp [trim]

/-! ## Fields -/

/-- Cuts at every blank; two blanks in a row leave an empty piece. -/
def cutAtBlanks : List Char → List (List Char)
  | [] => [[]]
  | c :: cs =>
    if isBlank c then [] :: cutAtBlanks cs
    else match cutAtBlanks cs with
      | [] => [[c]]
      | w :: ws => (c :: w) :: ws

/-- The longest runs of characters that are not blank, in order. -/
def fields (cs : List Char) : List (List Char) :=
  (cutAtBlanks cs).filter (fun w => !w.isEmpty)

end DnsGate.Text
