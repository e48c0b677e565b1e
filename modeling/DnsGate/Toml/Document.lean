import DnsGate.Toml.Scalar

/-!
Settings files as documents.  A document keeps what the file says together with how it is written:
the blanks and comments around keys and values, the spelling of keys and scalars, and the order in
which tables stand.  What has no spacing of its own gets the usual one when it is written.
-/

namespace DnsGate.Toml

/-- What stands before and after something; `none` for the usual blanks. -/
structure Spacing where
  before : Option (List Char) := none
  after : Option (List Char) := none
deriving DecidableEq, Repr

/-- A key as it is written.  Of a dotted key the last part carries the spacing around the
whole. -/
structure Key where
  name : String
  written : List Char
  /-- Around the dotted key that ends in this part. -/
  outer : Spacing := {}
  /-- Around this part within a dotted key. -/
  inner : Spacing := {}
deriving DecidableEq, Repr

/-- A key that needs no quotes, with the usual spacing. -/
def Key.plain (name : String) : Key := { name, written := name.toList }

/-- How a table is written. -/
structure TableStyle where
  /-- Within braces, as a value. -/
  inline : Bool := false
  /-- Not written itself: some key or header led through it. -/
  implicit : Bool := false
  /-- Written as the first parts of dotted keys. -/
  dotted : Bool := false
  /-- The place of its header among the headers. -/
  position : Option Nat := none
  spacing : Spacing := {}
  /-- A comma after the last pair, within braces. -/
  comma : Bool := false
  /-- What stands before the closing brace. -/
  closing : List Char := []
deriving DecidableEq, Repr

/-- What a key stands for. -/
inductive Node where
  /-- A scalar and its spelling. -/
  | scalar (spacing : Spacing) (written : List Char) (value : Scalar)
  /-- Values in brackets, whether a comma follows the last one, and what stands before the closing
  bracket. -/
  | array (spacing : Spacing) (items : List Node) (comma : Bool) (closing : List Char)
  | table (style : TableStyle) (entries : List (Key × Node))
  /-- Tables under one header in double brackets. -/
  | tables (elements : List (TableStyle × List (Key × Node)))

/-- Keys with what they stand for, in order. -/
abbrev Entries := List (Key × Node)

/-- A whole document: the entries of the root table and what stands after the last line. -/
structure Document where
  root : Entries
  closing : List Char

/-! ## Entries -/

namespace Entries

/-- What a key stands for. -/
def find? (es : Entries) (name : String) : Option Node :=
  (List.find? (fun e => e.1.name = name) es).map (·.2)

/-- The entries without a key. -/
def erase (es : Entries) (name : String) : Entries := es.filter (·.1.name ≠ name)

/-- Changes what a key stands for; the key must be there. -/
def modify? (name : String) (f : Node → Option Node) : Entries → Option Entries
  | [] => none
  | (k, n) :: es =>
    if k.name = name then (f n).map fun n => (k, n) :: es
    else (modify? name f es).map ((k, n) :: ·)

/-- Gives a key another value.  A key that is there keeps its place but not its spelling; a new one
goes to the end. -/
def put (name : String) (n : Node) : Entries → Entries
  | [] => [(Key.plain name, n)]
  | (k, old) :: es =>
    if k.name = name then ({ k with written := name.toList, outer := {}, inner := {} }, n) :: es
    else (k, old) :: put name n es

/-- What a key stands for after a value was put. -/
theorem find?_put (es : Entries) (name other : String) (n : Node) :
    find? (put name n es) other = if other = name then some n else find? es other := by
  induction es with
  | nil =>
    by_cases h : other = name
    · simp [put, find?, Key.plain, h]
    · simp [put, find?, Key.plain, h, Ne.symm h]
  | cons e es ih =>
    obtain ⟨k, old⟩ := e
    simp only [put]
    split
    · rename_i hk
      subst hk
      by_cases h : other = k.name
      · simp [find?, h]
      · simp [find?, h, Ne.symm h]
    · rename_i hk
      by_cases h : k.name = other
      · subst h
        simp [find?, hk]
      · simp only [find?] at ih ⊢
        simpa [List.find?_cons, h] using ih

end Entries

/-! ## Views -/

namespace Node

/-- A value with other spacing. -/
def withSpacing (s : Spacing) : Node → Node
  | scalar _ written value => scalar s written value
  | array _ items comma closing => array s items comma closing
  | table style entries => table { style with spacing := s } entries
  | tables elements => tables elements

/-- The entries of a table. -/
def entries? : Node → Option Entries
  | table _ entries => some entries
  | _ => none

/-- The elements of a list. -/
def elements? : Node → Option (List Node)
  | array _ items _ _ => some items
  | tables elements => some (elements.map fun (style, entries) => table style entries)
  | _ => none

def scalar? : Node → Option Scalar
  | scalar _ _ value => some value
  | _ => none

/-! ## Bounds on integers -/

mutual

/-- Whether all integers within have a property. -/
def integersAll (p : Int → Bool) : Node → Bool
  | scalar _ _ (.integer n) => p n
  | scalar .. => true
  | array _ items _ _ => itemsAll p items
  | table _ entries => entriesAll p entries
  | tables elements => elementsAll p elements

def itemsAll (p : Int → Bool) : List Node → Bool
  | [] => true
  | n :: ns => integersAll p n && itemsAll p ns

def entriesAll (p : Int → Bool) : List (Key × Node) → Bool
  | [] => true
  | (_, n) :: es => integersAll p n && entriesAll p es

def elementsAll (p : Int → Bool) : List (TableStyle × List (Key × Node)) → Bool
  | [] => true
  | (_, es) :: ts => entriesAll p es && elementsAll p ts

end

end Node

/-- Whether all integers of a document have a property. -/
def Document.integersAll (p : Int → Bool) (d : Document) : Bool := Node.entriesAll p d.root

end DnsGate.Toml
