import DnsGate.Toml.Document

/-!
Writing documents.  What was read and not changed is written as it was, but for carriage returns,
which are left out, and for dotted keys, which stand together for every table.
-/

namespace DnsGate.Toml

/-! ## Spacing -/

/-- The usual blanks before and after something. -/
abbrev Usual := List Char × List Char

/-- A text with what stands around it. -/
def Spacing.around (s : Spacing) (usual : Usual) (cs : List Char) : List Char :=
  s.before.getD usual.1 ++ cs ++ s.after.getD usual.2

/-- The usual blanks around values, by place. -/
def valueUsual : Usual := ([' '], [])
def firstItemUsual : Usual := ([], [])
def lastPairUsual : Usual := ([' '], [' '])

/-- The usual blanks around keys, by place. -/
def lineKeyUsual : Usual := ([], [' '])
def inlineKeyUsual : Usual := ([' '], [' '])

/-! ## Keys -/

/-- The parts of a key after the first one. -/
def keyTail : List Key → List Char
  | [] => []
  | k :: ks => '.' :: k.inner.before.getD [] ++ k.written ++
      (if ks.isEmpty then [] else k.inner.after.getD []) ++ keyTail ks

/-- A dotted key: the spacing of its last part stands around all of it. -/
def keysText (usual : Usual) : List Key → List Char
  | [] => []
  | k :: ks => (((k :: ks).getLast?.map Key.outer).getD {}).around usual
      (k.written ++ (if ks.isEmpty then [] else k.inner.after.getD []) ++ keyTail ks)

/-! ## Values -/

/-- A pair to be written: its dotted key, and the text of its value given the usual blanks. -/
abbrev PairText := List Key × (Usual → List Char)

/-- Pairs within braces. -/
def inlinePairs : List PairText → List Char
  | [] => []
  | [(ks, value)] => keysText inlineKeyUsual ks ++ '=' :: value lastPairUsual
  | (ks, value) :: rest =>
    keysText inlineKeyUsual ks ++ '=' :: value valueUsual ++ ',' :: inlinePairs rest

namespace Node

mutual

/-- A value with what stands around it. -/
def text : Node → Usual → List Char
  | scalar spacing written _, usual => spacing.around usual written
  | array spacing items comma closing, usual =>
    spacing.around usual ('[' :: itemsText firstItemUsual items ++
      (if comma && !items.isEmpty then [','] else []) ++ closing ++ [']'])
  | table style entries, usual =>
    style.spacing.around usual ('{' :: inlinePairs (pairTexts [] entries) ++
      (if style.comma then [','] else []) ++ style.closing ++ ['}'])
  | tables _, _ => []

/-- Items between commas, given the usual blanks around the first one. -/
def itemsText : Usual → List Node → List Char
  | _, [] => []
  | usual, n :: ns => text n usual ++ (if ns.isEmpty then [] else [',']) ++ itemsText valueUsual ns

/-- The pairs of a table, with those of tables of dotted keys in it. -/
def pairTexts (path : List Key) : List (Key × Node) → List PairText
  | [] => []
  | (k, n) :: es => entryTexts (path ++ [k]) n ++ pairTexts path es

/-- The pairs that an entry comes to. -/
def entryTexts (path : List Key) : Node → List PairText
  | table style entries =>
    if style.dotted then pairTexts path entries
    else if style.inline then [(path, text (table style entries))]
    else []
  | tables _ => []
  | n => [(path, text n)]

end

end Node

/-! ## Tables -/

/-- A table to be written under a header. -/
structure Block where
  style : TableStyle
  /-- Its header is in double brackets. -/
  repeated : Bool
  path : List Key
  pairs : List PairText

namespace Node

mutual

/-- The blocks of a node: the table itself and the tables within. -/
def blocks (path : List Key) : Node → List Block
  | table style entries =>
    if style.inline then []
    else (if style.dotted then [] else [⟨style, false, path, pairTexts [] entries⟩])
      ++ entriesBlocks path entries
  | tables elements => elementsBlocks path elements
  | _ => []

/-- The blocks of the tables among some entries. -/
def entriesBlocks (path : List Key) : List (Key × Node) → List Block
  | [] => []
  | (k, n) :: es => blocks (path ++ [k]) n ++ entriesBlocks path es

/-- The blocks of the elements of a list of tables. -/
def elementsBlocks (path : List Key) : List (TableStyle × List (Key × Node)) → List Block
  | [] => []
  | (style, es) :: ts =>
    ⟨style, true, path, pairTexts [] es⟩ :: entriesBlocks path es ++ elementsBlocks path ts

end

end Node

namespace Document

/-- Blocks with their places.  One without a place of its own follows the block before it. -/
def placed : (last : Nat) → List Block → List (Nat × Block)
  | _, [] => []
  | last, b :: bs => (b.style.position.getD last, b) :: placed (b.style.position.getD last) bs

/-- The pairs of a block, a line each. -/
def pairLines (pairs : List PairText) : List Char :=
  pairs.flatMap fun (ks, value) => keysText lineKeyUsual ks ++ '=' :: value valueUsual ++ ['\n']

/-- The header of a block: none for the root, and none for a table that was not written and has no
pairs. -/
def headerLine (first : Bool) (b : Block) : List Char :=
  if b.path.isEmpty || (!b.repeated && b.style.implicit && b.pairs.isEmpty) then []
  else
    let usual : Usual := (if first then [] else ['\n'], [])
    let keys := keysText ([], []) b.path
    let brackets := if b.repeated then ['[', '['] ++ keys ++ [']', ']'] else '[' :: keys ++ [']']
    b.style.spacing.around usual brackets ++ ['\n']

/-- Blocks in order; `first` as long as nothing is written. -/
def blocksText : (first : Bool) → List Block → List Char
  | _, [] => []
  | first, b :: bs =>
    let text := headerLine first b ++ pairLines b.pairs
    text ++ blocksText (first && text.isEmpty) bs

/-- The blocks of a document in the order in which they are written. -/
def blocks (d : Document) : List Block :=
  let root : Block := ⟨{ position := some 0 }, false, [], Node.pairTexts [] d.root⟩
  let all := placed 0 (root :: Node.entriesBlocks [] d.root)
  (all.mergeSort (fun a b => decide (a.1 ≤ b.1))).map (·.2)

/-- The text of a document. -/
def text (d : Document) : String :=
  String.ofList ((blocksText true d.blocks ++ d.closing).filter (· ≠ '\r'))

end Document

end DnsGate.Toml
