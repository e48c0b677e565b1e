import DnsGate.Binary.Utf8
import DnsGate.Text.Digits
import DnsGate.Text.Magnitude

/-!
The little of JSON that the management interface needs: lists of texts are read, and numbers, texts
and lists are written.  Reading tells text that is no JSON from JSON of another shape; whichever of
the two shows first in the text counts.
-/

namespace DnsGate.Api

/-! ## Reading -/

/-- Why a text is not read. -/
inductive JsonError where
  /-- It is no JSON. -/
  | malformed
  /-- It is JSON of another shape. -/
  | shape
deriving DecidableEq, Repr

/-- Readers give back what they did not read. -/
abbrev JsonResult (α : Type) := Except JsonError (α × List Char)

def isJsonBlank (c : Char) : Bool := c == ' ' || c == '\n' || c == '\t' || c == '\r'

def skipJsonBlanks (cs : List Char) : List Char := cs.dropWhile isJsonBlank

/-- The character that an escape of one letter stands for. -/
def jsonEscape? : Char → Option Char
  | '"' => some '"'
  | '\\' => some '\\'
  | '/' => some '/'
  | 'b' => some '\x08'
  | 'f' => some '\x0c'
  | 'n' => some '\n'
  | 'r' => some '\r'
  | 't' => some '\t'
  | _ => none

/-- Where reading a text stands. -/
inductive JsonMode where
  | plain
  | escape
  /-- Within the four digits of a unit of UTF-16; `lead` is the first unit of a pair. -/
  | digits (left value : Nat) (lead : Option Nat)
  /-- Between the two units of a pair: before the backslash, or after it. -/
  | second (lead : Nat) (backslash : Bool)
deriving DecidableEq, Repr

/-- What a unit of UTF-16 comes to: a character, the first unit of a pair, or neither. -/
inductive UnitMeaning where
  | char (c : Char)
  | lead (n : Nat)
  | invalid

/-- The meaning of a unit, given the first unit of its pair if there is one. -/
def unitMeaning (value : Nat) : Option Nat → UnitMeaning
  | some lead =>
    if 0xDC00 ≤ value ∧ value ≤ 0xDFFF then
      .char (Char.ofNat (0x10000 + (lead - 0xD800) * 0x400 + (value - 0xDC00)))
    else .invalid
  | none =>
    if 0xD800 ≤ value ∧ value ≤ 0xDBFF then .lead value
    else if 0xDC00 ≤ value ∧ value ≤ 0xDFFF then .invalid
    else .char (Char.ofNat value)

/-- Puts a character before the text that is read. -/
def pushChar (c : Char) (r : JsonResult (List Char)) : JsonResult (List Char) :=
  r.map fun (s, rest) => (c :: s, rest)

/-- Reads a text after its opening quote. -/
def readJsonText : JsonMode → List Char → JsonResult (List Char)
  | _, [] => .error .malformed
  | .plain, c :: cs =>
    if c = '"' then .ok ([], cs)
    else if c = '\\' then readJsonText .escape cs
    else if c.toNat < 0x20 then .error .malformed
    else pushChar c (readJsonText .plain cs)
  | .escape, c :: cs =>
    if c = 'u' then readJsonText (.digits 4 0 none) cs
    else match jsonEscape? c with
      | some d => pushChar d (readJsonText .plain cs)
      | none => .error .malformed
  | .digits left value lead, c :: cs =>
    match Text.digit? 16 c with
    | none => .error .malformed
    | some d =>
      if 1 < left then readJsonText (.digits (left - 1) (value * 16 + d) lead) cs
      else match unitMeaning (value * 16 + d) lead with
        | .char e => pushChar e (readJsonText .plain cs)
        | .lead n => readJsonText (.second n false) cs
        | .invalid => .error .malformed
  | .second lead backslash, c :: cs =>
    if !backslash ∧ c = '\\' then readJsonText (.second lead true) cs
    else if backslash ∧ c = 'u' then readJsonText (.digits 4 0 (some lead)) cs
    else .error .malformed

/-- Whether a number stands at the start of a text, one of finite size. -/
def startsNumber (cs : List Char) : Bool :=
  let cs := match cs with
    | '-' :: cs => cs
    | cs => cs
  let (whole, rest) := cs.span Char.isDigit
  let plain := !whole.isEmpty && (whole.length == 1 || whole.head? != some '0')
  let (point, frac, rest) := match rest with
    | '.' :: rest => (true, rest.takeWhile Char.isDigit, rest.dropWhile Char.isDigit)
    | rest => (false, [], rest)
  let (mark, negative, power) := match rest with
    | c :: rest =>
      if c = 'e' ∨ c = 'E' then
        let (negative, rest) := match rest with
          | '-' :: rest => (true, rest)
          | '+' :: rest => (false, rest)
          | rest => (false, rest)
        (true, negative, rest.takeWhile Char.isDigit)
      else (false, false, [])
    | [] => (false, false, [])
  let mantissa := (Text.readNat? 10 (whole ++ frac)).getD 0
  let exponent : Int := (Text.readNat? 10 power).getD 0
  plain && (!point || !frac.isEmpty) && (!mark || !power.isEmpty) &&
    !Text.overflows mantissa (whole.length + frac.length)
      ((if negative then -exponent else exponent) - frac.length)

/-- Which of the two errors a value is that is no list of texts, or no text. -/
def otherValue (cs : List Char) : JsonError :=
  let starts (word : String) : Bool := word.toList.isPrefixOf cs
  match cs with
  | [] => .malformed
  | c :: rest =>
    if c = '[' ∨ c = '{' ∨ starts "null" ∨ starts "true" ∨ starts "false" then .shape
    else if c = '"' then
      match readJsonText .plain rest with
      | .ok _ => .shape
      | .error e => e
    else if startsNumber cs then .shape
    else .malformed

/-- Reads the texts of a list: after the opening bracket, or after a text when `more`. -/
def readTexts : Nat → (more : Bool) → List Char → Except JsonError (List String × List Char)
  | 0, _, _ => .error .malformed
  | fuel + 1, more, cs => do
    let cs := skipJsonBlanks cs
    if cs.head? = some ']' then return ([], cs.tail)
    if more ∧ cs.head? ≠ some ',' then throw .malformed
    let cs := if more then skipJsonBlanks cs.tail else cs
    match cs with
    | '"' :: cs =>
      let (s, cs) ← readJsonText .plain cs
      let (ss, rest) ← readTexts fuel true cs
      return (String.ofList s :: ss, rest)
    | ']' :: _ => throw .malformed
    | cs => throw (otherValue cs)

/-- The list of texts that a body is. -/
def parseTexts (body : Bytes) : Except JsonError (List String) := do
  let cs := skipJsonBlanks ((Utf8.units body).map (·.getD '\x00'))
  match cs with
  | '[' :: cs =>
    let (texts, rest) ← readTexts (cs.length + 1) false cs
    if (skipJsonBlanks rest).isEmpty then return texts else throw .malformed
  | cs => throw (otherValue cs)

/-! ## Writing -/

/-- A character within quotes. -/
def jsonChar (c : Char) : List Char :=
  match c with
  | '"' => ['\\', '"']
  | '\\' => ['\\', '\\']
  | '\x08' => ['\\', 'b']
  | '\x0c' => ['\\', 'f']
  | '\n' => ['\\', 'n']
  | '\r' => ['\\', 'r']
  | '\t' => ['\\', 't']
  | c =>
    if c.toNat < 0x20 then
      ['\\', 'u', '0', '0', Nat.digitChar (c.toNat / 16), Nat.digitChar (c.toNat % 16)]
    else [c]

def jsonText (s : String) : String := String.ofList ('"' :: s.toList.flatMap jsonChar ++ ['"'])

def jsonTexts (ss : List String) : String := "[" ++ ",".intercalate (ss.map jsonText) ++ "]"

def jsonBool (b : Bool) : String := if b then "true" else "false"

/-- A text that may be missing. -/
def jsonOption (s : Option String) : String := (s.map jsonText).getD "null"

/-- An object, given its keys and the texts of its values. -/
def jsonObject (pairs : List (String × String)) : String :=
  "\x7b" ++ ",".intercalate (pairs.map fun (k, v) => jsonText k ++ ":" ++ v) ++ "\x7d"

end DnsGate.Api
