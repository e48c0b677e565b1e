import DnsGate.Text.Digits

/-!
Quoted text of settings files, in four forms: basic text in double quotes, in which a backslash
starts an escape, and literal text in single quotes; both also in triple quotes, which may span
lines.
-/

namespace DnsGate.Toml

/-! ## Characters -/

/-- Blanks within a line. -/
def isBlank (c : Char) : Bool := c == ' ' || c == '\t'

/-- The characters that stand for themselves in text and comments: all but control characters
other than the tab. -/
def isPlain (c : Char) : Bool := c == '\t' || (0x20 ≤ c.toNat && c.toNat != 0x7F)

/-- The rest after the end of a line. -/
def afterNewline? : List Char → Option (List Char)
  | '\n' :: cs => some cs
  | '\r' :: '\n' :: cs => some cs
  | _ => none

/-- Whether `c`, before `cs`, belongs to the end of a line. -/
def endsLine (c : Char) (cs : List Char) : Bool :=
  c == '\n' || (c == '\r' && cs.head? == some '\n')

/-- The character that an escape of one letter stands for. -/
def escaped? : Char → Option Char
  | 'b' => some '\x08'
  | 't' => some '\t'
  | 'n' => some '\n'
  | 'f' => some '\x0c'
  | 'r' => some '\r'
  | 'e' => some '\x1b'
  | '"' => some '"'
  | '\\' => some '\\'
  | _ => none

/-- How many hexadecimal digits follow the letter of an escape by number. -/
def escapeWidth? : Char → Option Nat
  | 'x' => some 2
  | 'u' => some 4
  | 'U' => some 8
  | _ => none

/-- The character with a number; surrogates and numbers out of range have none. -/
def charOfNumber? (n : Nat) : Option Char :=
  if n.isValidChar then some (Char.ofNat n) else none

/-! ## Reading -/

/-- The text within the quotes and what follows them. -/
abbrev Quotation := Option (List Char × List Char)

/-- Puts a character before the text. -/
def push (c : Char) (q : Quotation) : Quotation := q.map fun (s, rest) => (c :: s, rest)

/-- What follows the first of three closing quotes.  One or two more quotes right there belong to
the text. -/
def closeTriple? (quote : Char) : List Char → Quotation
  | a :: b :: cs =>
    if a = quote ∧ b = quote then
      let extra := (cs.takeWhile (· == quote)).take 2
      some (extra, cs.drop extra.length)
    else none
  | _ => none

/-- Where reading basic text stands. -/
inductive BasicMode where
  /-- In the text.  After an escaped line end, blanks and line ends are skipped. -/
  | text (skipping : Bool)
  /-- After a backslash. -/
  | escape
  /-- After a backslash and blanks, which must end the line. -/
  | lineEnd
  /-- Within the digits of an escape by number. -/
  | digits (left value : Nat)
deriving DecidableEq, Repr

/-- Reads basic text up to its closing quotes; `triple` tells which ones. -/
def readBasic (triple : Bool) : BasicMode → List Char → Quotation
  | _, [] => none
  | .text skipping, c :: cs =>
    if skipping && (isBlank c || endsLine c cs) then readBasic triple (.text true) cs
    else if c = '"' then
      if triple then (closeTriple? '"' cs).or (push c (readBasic triple (.text false) cs))
      else some ([], cs)
    else if c = '\\' then readBasic triple .escape cs
    else if isPlain c || (triple && endsLine c cs) then push c (readBasic triple (.text false) cs)
    else none
  | .escape, c :: cs =>
    match escapeWidth? c, escaped? c with
    | some n, _ => readBasic triple (.digits n 0) cs
    | none, some d => push d (readBasic triple (.text false) cs)
    | none, none =>
      if !triple then none
      else if c = '\n' then readBasic triple (.text true) cs
      else if isBlank c || endsLine c cs then readBasic triple .lineEnd cs
      else none
  | .lineEnd, c :: cs =>
    if c = '\n' then readBasic triple (.text true) cs
    else if isBlank c || endsLine c cs then readBasic triple .lineEnd cs
    else none
  | .digits left value, c :: cs =>
    match Text.digit? 16 c with
    | none => none
    | some d =>
      if 1 < left then readBasic triple (.digits (left - 1) (value * 16 + d)) cs
      else (charOfNumber? (value * 16 + d)).bind
        fun e => push e (readBasic triple (.text false) cs)

/-- Reads literal text up to its closing quotes; `triple` tells which ones. -/
def readLiteral (triple : Bool) : List Char → Quotation
  | [] => none
  | c :: cs =>
    if c = '\'' then
      if triple then (closeTriple? '\'' cs).or (push c (readLiteral triple cs)) else some ([], cs)
    else if isPlain c || (triple && endsLine c cs) then push c (readLiteral triple cs)
    else none

/-- Reads text in single or double quotes, one on each side. -/
def readQuoted? : List Char → Quotation
  | '"' :: cs => readBasic false (.text false) cs
  | '\'' :: cs => readLiteral false cs
  | _ => none

/-- Reads text in any quotes.  A line end right after three opening quotes is no part of the
text. -/
def readString? : List Char → Quotation
  | '"' :: '"' :: '"' :: cs => readBasic true (.text false) ((afterNewline? cs).getD cs)
  | '\'' :: '\'' :: '\'' :: cs => readLiteral true ((afterNewline? cs).getD cs)
  | cs => readQuoted? cs

end DnsGate.Toml
