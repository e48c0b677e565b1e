import DnsGate.Toml.Lines

/-!
Reading settings files into documents.  Sections may come in any order; a key may have one value
and a table one header.
-/

namespace DnsGate.Toml

/-! ## Sections -/

/-- Changes the entries of the table that a path of a header leads to.  Missing tables are made on
the way; of a list of tables the last one is meant. -/
def changeAt (f : Entries → Option Entries) : List Key → Entries → Option Entries
  | [], es => f es
  | k :: path, es =>
    match es.find? k.name with
    | none => (changeAt f path []).map fun sub => es ++ [(k, .table { implicit := true } sub)]
    | some _ => es.modify? k.name fun
      | .table style sub => if style.inline then none else (changeAt f path sub).map (.table style)
      | .tables elements =>
        (modifyLast? (fun (style, sub) => (changeAt f path sub).map (style, ·)) elements).map .tables
      | _ => none

/-- Puts a table under its header.  A table that other headers led through takes its place at the
end. -/
def placeTable (style : TableStyle) (key : Key) (pairs : List Pair) (es : Entries) :
    Option Entries :=
  match es.find? key.name with
  | none => (addPairs false [] pairs).map fun sub => es ++ [(key, .table style sub)]
  | some (.table old sub) =>
    if old.implicit ∧ ¬old.dotted then
      (addPairs false sub pairs).map fun sub => es.erase key.name ++ [(key, .table style sub)]
    else none
  | some _ => none

/-- Puts one more table under a header in double brackets. -/
def placeElement (style : TableStyle) (key : Key) (pairs : List Pair) (es : Entries) :
    Option Entries := do
  let sub ← addPairs false [] pairs
  match es.find? key.name with
  | none => some (es ++ [(key, .tables [(style, sub)])])
  | some (.tables elements) =>
    es.modify? key.name fun _ => some (.tables (elements ++ [(style, sub)]))
  | some _ => none

/-- Adds a section, given its place among the headers. -/
def addSection (position : Nat) (s : Section) (es : Entries) : Option Entries :=
  let style : TableStyle := { position := some position, spacing := s.header.spacing }
  changeAt ((if s.header.repeated then placeElement else placeTable) style s.header.key s.pairs)
    s.header.path es

/-- Adds sections in order, numbered from `position` on. -/
def addSections : (position : Nat) → List Section → Entries → Option Entries
  | _, [], es => some es
  | position, s :: ss, es => (addSection position s es).bind (addSections (position + 1) ss)

/-! ## Documents -/

/-- The text after a byte order mark. -/
def dropMark : List Char → List Char
  | '\uFEFF' :: cs => cs
  | cs => cs

/-- The document that a file is. -/
def Document.parse? (text : String) : Option Document := do
  let cs := dropMark text.toList
  let outline ← readOutline (cs.length + 1) cs
  let root ← addPairs false [] outline.pairs
  some ⟨← addSections 1 outline.sections root, outline.closing⟩

end DnsGate.Toml
