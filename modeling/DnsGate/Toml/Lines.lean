import DnsGate.Toml.Document
import DnsGate.Toml.Quoted

/-!
The lines of a settings file: pairs of a key and a value, grouped under the headers of tables.
Every reader takes what it reads off a text and gives back the rest; `none` is a refusal.
-/

namespace DnsGate.Toml

/-! ## Blanks and comments -/

/-- What a text has before its end `rest`. -/
def upTo (rest cs : List Char) : List Char := cs.take (cs.length - rest.length)

/-- The rest after blanks, line ends and comments.  A comment runs from `#` to the end of the
line. -/
def afterTrivia? : (comment : Bool) → List Char → Option (List Char)
  | _, [] => some []
  | comment, c :: cs =>
    if c = '\n' then afterTrivia? false cs
    else if endsLine c cs then afterTrivia? comment cs
    else if comment then if isPlain c then afterTrivia? true cs else none
    else if isBlank c then afterTrivia? false cs
    else if c = '#' then afterTrivia? true cs
    else some (c :: cs)

/-- Blanks, line ends and comments. -/
def readTrivia (cs : List Char) : Option (List Char × List Char) :=
  (afterTrivia? false cs).map fun rest => (upTo rest cs, rest)

/-- Blanks of one line. -/
def spanBlanks (cs : List Char) : List Char × List Char := cs.span isBlank

/-- The blanks and the comment that end a line, and the text from the next line on. -/
def readLineEnd (cs : List Char) : Option (List Char × List Char) :=
  let (blanks, rest) := spanBlanks cs
  let (comment, rest) := match rest with
    | '#' :: more => let (body, rest) := more.span isPlain; ('#' :: body, rest)
    | rest => ([], rest)
  match rest with
  | [] => some (blanks ++ comment, [])
  | rest => (afterNewline? rest).map (blanks ++ comment, ·)

/-! ## Keys -/

/-- The characters of keys without quotes. -/
def isBareKey (c : Char) : Bool := c.isAlphanum || c == '_' || c == '-'

/-- Reads one part of a key. -/
def readKey (cs : List Char) : Option (Key × List Char) :=
  match readQuoted? cs with
  | some (name, rest) => some ({ name := String.ofList name, written := upTo rest cs }, rest)
  | none =>
    let (name, rest) := cs.span isBareKey
    if name.isEmpty then none else some ({ name := String.ofList name, written := name }, rest)

/-- Reads a key of parts between dots: the parts before the last one, and the last one. -/
def readKeys : Nat → List Char → List Char → Option ((List Key × Key) × List Char)
  | 0, _, _ => none
  | fuel + 1, before, cs => do
    let (key, rest) ← readKey cs
    let (after, dot) := spanBlanks rest
    match dot with
    | '.' :: cs =>
      let (next, cs) := spanBlanks cs
      let ((path, last), rest) ← readKeys fuel next cs
      some (({ key with inner := ⟨some before, some after⟩ } :: path, last), rest)
    | _ => some (([], { key with inner := ⟨some before, some []⟩ }), rest)

/-- A key with what stands before the whole of it and after it. -/
def Key.within (k : Key) (before after : List Char) : Key :=
  { k with outer := ⟨some before, some after⟩ }

/-- A key and its value.  The key is the last part of a dotted key that starts with `path`. -/
structure Pair where
  path : List Key
  key : Key
  value : Node

/-! ## Tables within a document -/

/-- Changes the last element of a list. -/
def modifyLast? {α : Type} (f : α → Option α) : List α → Option (List α)
  | [] => none
  | [a] => (f a).map ([·])
  | a :: as => (modifyLast? f as).map (a :: ·)

/-- Adds a value under a dotted key.  Its path may go through tables that are not written
themselves; the table it ends in must be one of dotted keys. -/
def addValue (inline : Bool) (key : Key) (value : Node) : List Key → Entries → Option Entries
  | [], es => if (es.find? key.name).isSome then none else some (es ++ [(key, value)])
  | k :: path, es =>
    match es.find? k.name with
    | none => (addValue inline key value path []).map
        fun sub => es ++ [(k, .table { inline, implicit := true, dotted := true } sub)]
    | some _ => es.modify? k.name fun
      | .table style sub =>
        if style.inline = inline ∧ style.implicit ∧ (style.dotted ∨ path ≠ []) then
          (addValue inline key value path sub).map (.table style)
        else none
      | .tables elements =>
        if path = [] then none
        else (modifyLast? (fun (style, sub) => (addValue inline key value path sub).map (style, ·))
          elements).map .tables
      | _ => none

/-- Adds pairs in order. -/
def addPairs (inline : Bool) (es : Entries) (pairs : List Pair) : Option Entries :=
  pairs.foldlM (fun es p => addValue inline p.key p.value p.path es) es

/-! ## Values -/

/-- How many arrays and inline tables may stand within each other. -/
def maxDepth : Nat := 80

/-- Enough steps to read any value at the start of a text: at most two for every character. -/
def stepsFor (cs : List Char) : Nat := 2 * cs.length + 2

/-- Items up to a closing bracket or brace. -/
structure Listed (α : Type) where
  items : List α
  /-- A comma follows the last item. -/
  comma : Bool
  /-- What stands before the closing mark when no item does. -/
  closing : List Char

/-- Puts an item that a comma follows before others. -/
def Listed.push {α : Type} (a : α) (l : Listed α) : Listed α :=
  { l with items := a :: l.items, comma := l.comma || l.items.isEmpty }

mutual

/-- Reads a value without the blanks around it. -/
def readValue : Nat → (depth : Nat) → List Char → Option (Node × List Char)
  | 0, _, _ => none
  | fuel + 1, depth, cs =>
    match readString? cs with
    | some (s, rest) => some (.scalar {} (upTo rest cs) (.text (String.ofList s)), rest)
    | none =>
      match cs, depth with
      | '[' :: cs, depth + 1 => do
        let (l, rest) ← readItems fuel depth cs
        some (.array {} l.items l.comma l.closing, rest)
      | '{' :: cs, depth + 1 => do
        let (l, rest) ← readPairs fuel depth cs
        let es ← addPairs true [] l.items
        some (.table { inline := true, comma := l.comma, closing := l.closing } es, rest)
      | cs, _ => do
        let (raw, rest) := spanBare cs
        some (.scalar {} raw (← Scalar.ofBare? raw), rest)

/-- Reads the items of an array and its closing bracket. -/
def readItems : Nat → (depth : Nat) → List Char → Option (Listed Node × List Char)
  | 0, _, _ => none
  | fuel + 1, depth, cs => do
    let (before, cs) ← readTrivia cs
    if cs.head? = some ']' then some (⟨[], false, before⟩, cs.tail)
    else
      let (value, cs) ← readValue fuel depth cs
      let (after, cs) ← readTrivia cs
      let value := value.withSpacing ⟨some before, some after⟩
      match cs with
      | ',' :: cs => do
        let (l, rest) ← readItems fuel depth cs
        some (l.push value, rest)
      | ']' :: rest => some (⟨[value], false, []⟩, rest)
      | _ => none

/-- Reads the pairs of an inline table and its closing brace. -/
def readPairs : Nat → (depth : Nat) → List Char → Option (Listed Pair × List Char)
  | 0, _, _ => none
  | fuel + 1, depth, cs => do
    let (before, cs) ← readTrivia cs
    if cs.head? = some '}' then some (⟨[], false, before⟩, cs.tail)
    else
      let (pair, cs) ← readPair fuel depth before cs
      let (after, cs) ← readTrivia cs
      let pair := pair after
      match cs with
      | ',' :: cs => do
        let (l, rest) ← readPairs fuel depth cs
        some (l.push pair, rest)
      | '}' :: rest => some (⟨[pair], false, []⟩, rest)
      | _ => none

/-- Reads a key and its value, given what stands before; what stands after the value is still to be
told. -/
def readPair : Nat → (depth : Nat) → List Char → List Char →
    Option ((List Char → Pair) × List Char)
  | 0, _, _, _ => none
  | fuel + 1, depth, before, cs => do
    let ((path, key), cs) ← readKeys (cs.length + 1) [] cs
    let (after, cs) := spanBlanks cs
    match cs with
    | '=' :: cs =>
      let (gap, cs) := spanBlanks cs
      let (value, rest) ← readValue fuel depth cs
      some (fun end_ =>
        ⟨path, key.within before after, value.withSpacing ⟨some gap, some end_⟩⟩, rest)
    | _ => none

end

/-! ## Headers and sections -/

/-- The header of a table. -/
structure Header where
  /-- In double brackets: one more element of a list of tables. -/
  repeated : Bool
  path : List Key
  key : Key
  spacing : Spacing

/-- A header and the pairs under it. -/
structure Section where
  header : Header
  pairs : List Pair

/-- All of a file: the pairs before the first header, the sections, and what stands after the last
line. -/
structure Outline where
  pairs : List Pair
  sections : List Section
  closing : List Char

/-- Reads a header after its first bracket. -/
def readHeader (before cs : List Char) : Option (Header × List Char) := do
  let (repeated, cs) := match cs with
    | '[' :: cs => (true, cs)
    | cs => (false, cs)
  let (first, cs) := spanBlanks cs
  let ((path, key), cs) ← readKeys (cs.length + 1) [] cs
  let (last, cs) := spanBlanks cs
  let cs ← match repeated, cs with
    | true, ']' :: ']' :: cs => some cs
    | false, ']' :: cs => some cs
    | _, _ => none
  let (after, rest) ← readLineEnd cs
  some (⟨repeated, path, key.within first last, ⟨some before, some after⟩⟩, rest)

/-- Reads lines to the end. -/
def readOutline : Nat → List Char → Option Outline
  | 0, _ => none
  | fuel + 1, cs => do
    let (before, cs) ← readTrivia cs
    match cs with
    | [] => some ⟨[], [], before⟩
    | '[' :: cs =>
      let (header, cs) ← readHeader before cs
      let rest ← readOutline fuel cs
      some { rest with pairs := [], sections := ⟨header, rest.pairs⟩ :: rest.sections }
    | cs =>
      let (pair, cs) ← readPair (stepsFor cs) maxDepth before cs
      let (after, cs) ← readLineEnd cs
      let rest ← readOutline fuel cs
      some { rest with pairs := pair after :: rest.pairs }

end DnsGate.Toml
