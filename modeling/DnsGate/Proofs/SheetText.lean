import DnsGate.Proofs.LineText
import DnsGate.Toml.Reader

/-!
Sheets: documents of tables of the root, with a line for every pair.  A sheet is legible if its keys
and values read back, blanks and whole comments stand around them, no table and no key stands twice,
and the places of the tables go up.  Main statement: what is read of the text of a legible sheet is
the sheet with its usual blanks spelled out (`Sheet.Legible.parse?`).
-/

namespace DnsGate.Toml

/-! ## Tables -/

/-- A table of the root under a header of its own. -/
structure Table where
  key : Key
  style : TableStyle
  entries : Entries

namespace Table

def entry (t : Table) : Key × Node := (t.key, .table t.style t.entries)

/-- The section that a table is read from. -/
def asSection (t : Table) : Section := ⟨⟨false, [], t.key, t.style.spacing⟩, t.entries.map .ofEntry⟩

/-- The lines of a table. -/
def lines (first : Bool) (t : Table) : List Char :=
  headerText first t.key t.style.spacing ++ t.entries.flatMap pairLine

/-- A table with the usual blanks spelled out, and its place among the headers. -/
def spelled (first : Bool) (position : Nat) (t : Table) : Table where
  key := t.key.spelled headerKeyUsual
  style := { position := some position, spacing := t.style.spacing.spelled (headerUsual first) }
  entries := t.entries.map spelledPair

/-- A table that is read off its lines. -/
structure Legible (t : Table) : Prop where
  written : t.style.inline = false ∧ t.style.implicit = false ∧ t.style.dotted = false
  header : LegibleHeader t.key t.style.spacing
  pairs : ∀ e ∈ t.entries, LegiblePair e
  names : (t.entries.map (·.1.name)).Nodup

theorem Legible.outlines {t : Table} (h : t.Legible) (first : Bool) (position : Nat)
    {cs : List Char} {sections : List Section} {closing : List Char}
    (ho : Outlines cs ⟨[], sections, closing⟩) :
    Outlines (t.lines first ++ cs) ⟨[], (t.spelled first position).asSection :: sections, closing⟩ := by
  have hpairs := outlines_pairs h.pairs ho
  rw [List.append_nil] at hpairs
  rw [lines, List.append_assoc]
  exact h.header.outlines first hpairs

end Table

/-! ## Sheets -/

/-- A document of tables of the root, each with pairs of keys without dots. -/
structure Sheet where
  tables : List Table
  closing : List Char

/-- The lines of tables; `first` as long as nothing is written. -/
def tablesLines : (first : Bool) → List Table → List Char
  | _, [] => []
  | first, t :: ts => t.lines first ++ tablesLines false ts

/-- Tables with the usual blanks spelled out and their places, from `position` on. -/
def tablesSpelled : (first : Bool) → (position : Nat) → List Table → List Table
  | _, _, [] => []
  | first, position, t :: ts => t.spelled first position :: tablesSpelled false (position + 1) ts

/-- The places of tables, as far as they have any, go up. -/
def InOrder : (last : Nat) → List Table → Prop
  | _, [] => True
  | last, t :: ts =>
    last ≤ t.style.position.getD last ∧ InOrder (t.style.position.getD last) ts

namespace Sheet

def document (s : Sheet) : Document := ⟨s.tables.map Table.entry, s.closing⟩

/-- A sheet with the usual blanks spelled out. -/
def spelled (s : Sheet) : Sheet := { s with tables := tablesSpelled true 1 s.tables }

/-- A sheet that is read off its text. -/
structure Legible (s : Sheet) : Prop where
  tables : ∀ t ∈ s.tables, t.Legible
  names : (s.tables.map (·.key.name)).Nodup
  order : InOrder 0 s.tables
  closing : afterTrivia? false s.closing = some []
  clean : '\r' ∉ s.closing

end Sheet

/-! ## Reading -/

theorem outlines_tables {ts : List Table} (hts : ∀ t ∈ ts, t.Legible) {closing : List Char}
    (hclosing : afterTrivia? false closing = some []) (first : Bool) (position : Nat) :
    Outlines (tablesLines first ts ++ closing)
      ⟨[], (tablesSpelled first position ts).map Table.asSection, closing⟩ := by
  induction ts generalizing first position with
  | nil => exact outlines_closing hclosing
  | cons t ts ih =>
    have hrest := ih (fun u hu => hts u (List.mem_cons_of_mem _ hu)) false (position + 1)
    rw [tablesLines, List.append_assoc]
    exact (hts t List.mem_cons_self).outlines first position hrest

theorem find?_eq_none_iff {es : Entries} {name : String} :
    es.find? name = none ↔ name ∉ es.map (·.1.name) := by
  simp [Entries.find?]

theorem addPairs_ofEntry {es : Entries} (before : Entries)
    (h : ((before ++ es).map (·.1.name)).Nodup) :
    addPairs false before (es.map .ofEntry) = some (before ++ es) := by
  induction es generalizing before with
  | nil => simp [addPairs]
  | cons e es ih =>
    have hassoc : before ++ e :: es = before ++ [e] ++ es := by simp
    have hnew : before.find? e.1.name = none := by
      refine find?_eq_none_iff.mpr fun hmem => ?_
      rw [List.map_append, List.map_cons] at h
      exact (List.nodup_append.mp h).2.2 _ hmem _ List.mem_cons_self rfl
    have hadd : addValue false e.1 e.2 [] before = some (before ++ [e]) := by
      simp [addValue, hnew]
    rw [hassoc] at h ⊢
    rw [List.map_cons, addPairs, List.foldlM_cons]
    show (addValue false e.1 e.2 [] before).bind _ = _
    rw [hadd]
    exact ih (before ++ [e]) h

theorem addSection_table {t : Table} (ht : (t.entries.map (·.1.name)).Nodup) (first : Bool)
    (position : Nat) {before : Entries} (h : t.key.name ∉ before.map (·.1.name)) :
    addSection position (t.spelled first position).asSection before =
      some (before ++ [(t.spelled first position).entry]) := by
  have hnew : before.find? (t.spelled first position).key.name = none := find?_eq_none_iff.mpr h
  have hnames : (([] ++ (t.spelled first position).entries : Entries).map (·.1.name)).Nodup := by
    simpa [Table.spelled, spelledPair, Key.spelled, Function.comp_def] using ht
  have hpairs := addPairs_ofEntry [] hnames
  show placeTable _ (t.spelled first position).key _ before = _
  rw [placeTable, hnew]
  show (addPairs false [] ((t.spelled first position).entries.map .ofEntry)).map _ = _
  rw [hpairs]
  rfl

theorem addSections_tables {ts : List Table} (hts : ∀ t ∈ ts, (t.entries.map (·.1.name)).Nodup)
    (first : Bool) (position : Nat) (before : Entries)
    (h : (before.map (·.1.name) ++ ts.map (·.key.name)).Nodup) :
    addSections position ((tablesSpelled first position ts).map Table.asSection) before =
      some (before ++ (tablesSpelled first position ts).map Table.entry) := by
  induction ts generalizing first position before with
  | nil => simp [tablesSpelled, addSections]
  | cons t ts ih =>
    have hnew : t.key.name ∉ before.map (·.1.name) := fun hmem =>
      (List.nodup_append.mp h).2.2 _ hmem _ List.mem_cons_self rfl
    have hrest : ((before ++ [(t.spelled first position).entry]).map (·.1.name) ++
        ts.map (·.key.name)).Nodup := by
      simpa [Table.entry, Table.spelled, Key.spelled] using h
    rw [tablesSpelled, List.map_cons, List.map_cons, addSections,
      addSection_table (hts t List.mem_cons_self) first position hnew, Option.bind_some,
      ih (fun u hu => hts u (List.mem_cons_of_mem _ hu)) false (position + 1) _ hrest,
      List.append_assoc]
    rfl

/-! ## Printing -/

/-- The block that a table is written as. -/
def Table.block (t : Table) : Block :=
  ⟨t.style, false, [t.key], t.entries.map fun e => ([e.1], e.2.text)⟩

section Blocks

variable {depth : Nat} {n : Node}

theorem Node.Legible.entryTexts_eq (h : n.Legible depth) (path : List Key) :
    n.entryTexts path = [(path, n.text)] := by
  cases h <;> simp [entryTexts]

theorem Node.Legible.blocks_eq (h : n.Legible depth) (path : List Key) : n.blocks path = [] := by
  cases h <;> simp [blocks]

theorem pairTexts_legible {es : Entries} (h : ∀ e ∈ es, LegiblePair e) :
    Node.pairTexts [] es = es.map fun e => ([e.1], e.2.text) := by
  induction es with
  | nil => simp [Node.pairTexts]
  | cons e es ih =>
    rw [Node.pairTexts, (h e List.mem_cons_self).value.entryTexts_eq,
      ih fun d hd => h d (List.mem_cons_of_mem _ hd)]
    rfl

theorem entriesBlocks_legible {es : Entries} (h : ∀ e ∈ es, LegiblePair e) (path : List Key) :
    Node.entriesBlocks path es = [] := by
  induction es with
  | nil => simp [Node.entriesBlocks]
  | cons e es ih =>
    rw [Node.entriesBlocks, (h e List.mem_cons_self).value.blocks_eq,
      ih fun d hd => h d (List.mem_cons_of_mem _ hd)]
    rfl

theorem pairTexts_tables {ts : List Table} (h : ∀ t ∈ ts, t.Legible) :
    Node.pairTexts [] (ts.map Table.entry) = [] := by
  induction ts with
  | nil => simp [Node.pairTexts]
  | cons t ts ih =>
    obtain ⟨hinline, -, hdotted⟩ := (h t List.mem_cons_self).written
    rw [List.map_cons, Node.pairTexts, ih fun u hu => h u (List.mem_cons_of_mem _ hu)]
    simp [Table.entry, Node.entryTexts, hinline, hdotted]

theorem entriesBlocks_tables {ts : List Table} (h : ∀ t ∈ ts, t.Legible) :
    Node.entriesBlocks [] (ts.map Table.entry) = ts.map Table.block := by
  induction ts with
  | nil => simp [Node.entriesBlocks]
  | cons t ts ih =>
    have ht := h t List.mem_cons_self
    obtain ⟨hinline, -, hdotted⟩ := ht.written
    rw [List.map_cons, Node.entriesBlocks, ih fun u hu => h u (List.mem_cons_of_mem _ hu)]
    simp [Table.entry, Table.block, Node.blocks, hinline, hdotted, pairTexts_legible ht.pairs,
      entriesBlocks_legible ht.pairs]

/-- Tables whose places go up stay in order. -/
theorem pairwise_placed {last : Nat} {ts : List Table} (h : InOrder last ts) :
    (Document.placed last (ts.map Table.block)).Pairwise (fun a b => a.1 ≤ b.1) ∧
      ∀ b ∈ Document.placed last (ts.map Table.block), last ≤ b.1 := by
  induction ts generalizing last with
  | nil => exact ⟨.nil, fun _ h => absurd h List.not_mem_nil⟩
  | cons t ts ih =>
    obtain ⟨hlast, hrest⟩ := h
    obtain ⟨hpairwise, hleast⟩ := ih hrest
    refine ⟨.cons hleast hpairwise, ?_⟩
    intro b hb
    rcases List.mem_cons.mp hb with rfl | hb
    · exact hlast
    · exact hlast.trans (hleast b hb)

theorem map_placed (last : Nat) (bs : List Block) :
    (Document.placed last bs).map (·.2) = bs := by
  induction bs generalizing last with
  | nil => rfl
  | cons b bs ih => rw [Document.placed, List.map_cons, ih]

end Blocks

theorem Sheet.Legible.blocks {s : Sheet} (h : s.Legible) :
    s.document.blocks = ⟨{ position := some 0 }, false, [], []⟩ :: s.tables.map Table.block := by
  unfold Document.blocks
  simp only [document, pairTexts_tables h.tables, entriesBlocks_tables h.tables]
  -- the tables stand in the order of their places already, so sorting moves none
  rw [List.mergeSort_of_pairwise, map_placed]
  refine List.Pairwise.cons (fun b _ => decide_eq_true (Nat.zero_le b.1)) ?_
  exact (pairwise_placed h.order).1.imp fun hle => decide_eq_true hle

/-! ## Lines -/

theorem pairLines_eq (es : Entries) :
    Document.pairLines (es.map fun e => ([e.1], e.2.text)) = es.flatMap pairLine := by
  rw [Document.pairLines, List.flatMap_map]
  rfl

theorem Table.Legible.lines_eq {t : Table} (h : t.Legible) (first : Bool) :
    Document.headerLine first t.block ++ Document.pairLines t.block.pairs = t.lines first := by
  obtain ⟨-, himplicit, -⟩ := h.written
  rw [Table.lines, ← pairLines_eq]
  simp [Document.headerLine, Table.block, himplicit, headerText, headerUsual, headerKeyUsual]

theorem blocksText_tables {ts : List Table} (h : ∀ t ∈ ts, t.Legible) (first : Bool) :
    Document.blocksText first (ts.map Table.block) = tablesLines first ts := by
  induction ts generalizing first with
  | nil => rfl
  | cons t ts ih =>
    have hsome : (t.lines first).isEmpty = false := by
      simp [Table.lines, headerText, Spacing.around]
    rw [List.map_cons, Document.blocksText, (h t List.mem_cons_self).lines_eq, hsome,
      Bool.and_false, ih fun u hu => h u (List.mem_cons_of_mem _ hu)]
    rfl

/-! ## Carriage returns -/

theorem Table.Legible.clean {t : Table} (h : t.Legible) (first : Bool) :
    '\r' ∉ t.lines first := by
  have hkey := h.header.keySpacing.clean (fun _ => Blanks.clean) (fun _ => Blanks.clean)
    headerKeyUsual (by decide) h.header.key.clean
  have husual : '\r' ∉ (headerUsual first).1 ∧ '\r' ∉ (headerUsual first).2 := by
    cases first <;> decide
  have hbrackets : '\r' ∉ '[' :: keysText headerKeyUsual [t.key] ++ [']'] := by
    simp [keysText_one, hkey]
  have hheader := h.header.spacing.clean (fun _ => Trivia.clean) (fun _ => LineEnd.clean)
    (headerUsual first) husual hbrackets
  have hpairs : '\r' ∉ t.entries.flatMap pairLine := by
    intro hr
    obtain ⟨e, he, hr⟩ := List.mem_flatMap.mp hr
    exact (h.pairs e he).clean hr
  rw [lines, headerText]
  simp only [List.mem_append, not_or]
  exact ⟨⟨hheader, by decide⟩, hpairs⟩

theorem clean_tablesLines {ts : List Table} (h : ∀ t ∈ ts, t.Legible) (first : Bool) :
    '\r' ∉ tablesLines first ts := by
  induction ts generalizing first with
  | nil => exact List.not_mem_nil
  | cons t ts ih =>
    rw [tablesLines, List.mem_append, not_or]
    exact ⟨(h t List.mem_cons_self).clean first,
      ih (fun u hu => h u (List.mem_cons_of_mem _ hu)) false⟩

/-! ## Reading what was written -/

namespace Sheet

variable {s : Sheet}

theorem Legible.text_eq (h : s.Legible) :
    s.document.text = String.ofList (tablesLines true s.tables ++ s.closing) := by
  have hlines : Document.blocksText true s.document.blocks = tablesLines true s.tables := by
    rw [h.blocks, Document.blocksText]
    exact blocksText_tables h.tables true
  have hclean : ∀ c ∈ tablesLines true s.tables ++ s.closing, decide (c ≠ '\r') = true := by
    intro c hc
    refine decide_eq_true ?_
    rintro rfl
    rcases List.mem_append.mp hc with hc | hc
    · exact clean_tablesLines h.tables true hc
    · exact h.clean hc
  rw [Document.text, hlines]
  exact congrArg String.ofList (List.filter_eq_self.mpr hclean)

theorem dropMark_eq {cs : List Char} {o : Outline} (h : Outlines cs o) : dropMark cs = cs := by
  unfold dropMark
  split
  · -- the mark starts neither a key nor a header, so a text that starts with it has no outline
    rename_i cs
    have hkey : readKey ('\uFEFF' :: cs) = none := by
      by_contra hsome
      obtain ⟨⟨k, rest⟩, hk⟩ := Option.ne_none_iff_exists'.mp hsome
      obtain ⟨c, hc, hstarts⟩ := startsKey_of_readKey hk
      cases hc
      exact absurd hstarts (by decide)
    have hpair (fuel : Nat) : readPair (fuel + 1) maxDepth [] ('\uFEFF' :: cs) = none := by
      unfold readPair readKeys
      rw [hkey]
      rfl
    have htrivia : readTrivia ('\uFEFF' :: cs) = some ([], '\uFEFF' :: cs) :=
      readTrivia_append .nil ⟨'\uFEFF', rfl, by decide⟩
    have hread := h (cs.length + 2) (by simp)
    rw [readOutline_pair htrivia ⟨'\uFEFF', rfl, by decide⟩, stepsFor, hpair] at hread
    cases hread
  · rfl

/-- What is read of a legible sheet is the sheet with its usual blanks spelled out. -/
theorem Legible.parse? (h : s.Legible) :
    Document.parse? s.document.text = some s.spelled.document := by
  have houtline := outlines_tables h.tables h.closing true 1
  have hsections := addSections_tables (fun t ht => (h.tables t ht).names) true 1 [] h.names
  unfold Document.parse?
  rw [h.text_eq, String.toList_ofList]
  simp only [dropMark_eq houtline, Option.bind_eq_bind, houtline _ (Nat.lt_succ_self _),
    Option.bind_some]
  show (addPairs false [] []).bind _ = _
  simp only [addPairs, List.foldlM_nil]
  show (addSections 1 _ []).bind _ = _
  rw [hsections]
  rfl

end Sheet

end DnsGate.Toml
