import DnsGate.Proofs.LastSave

/-!
What documents say.  A node says a plain value: its scalars, its lists in order, and its tables as
what stands under each key, in whatever order and spelling.  Settings are made of what a document
says alone (`ofDocument?_alike`), and a sheet whose usual blanks are spelled out says what it said
(`alike_spelled`).
-/

namespace DnsGate.Toml

/-! ## Plain values -/

/-- What a node says, apart from how it is written. -/
inductive Plain where
  | scalar (value : Scalar)
  | list (items : List Plain)
  | table (fields : String → Option Plain)

namespace Plain

def scalar? : Plain → Option Scalar
  | scalar value => some value
  | _ => none

def items? : Plain → Option (List Plain)
  | list items => some items
  | _ => none

def fields? : Plain → Option (String → Option Plain)
  | table fields => some fields
  | _ => none

end Plain

namespace Node

mutual

/-- What a node says. -/
def plain : Node → Plain
  | scalar _ _ value => .scalar value
  | array _ items _ _ => .list (itemsPlain items)
  | table _ entries => .table (entriesPlain entries)
  | tables elements => .list (elementsPlain elements)

def itemsPlain : List Node → List Plain
  | [] => []
  | n :: ns => plain n :: itemsPlain ns

def entriesPlain : List (Key × Node) → String → Option Plain
  | [], _ => none
  | (k, n) :: es, name => if k.name = name then some (plain n) else entriesPlain es name

def elementsPlain : List (TableStyle × List (Key × Node)) → List Plain
  | [] => []
  | (_, es) :: ts => .table (entriesPlain es) :: elementsPlain ts

end

/-! ### Views -/

theorem scalar?_plain (n : Node) : n.plain.scalar? = n.scalar? := by
  cases n <;> rw [plain] <;> rfl

theorem itemsPlain_eq (ns : List Node) : itemsPlain ns = ns.map plain := by
  induction ns with
  | nil => rw [itemsPlain]; rfl
  | cons n ns ih => rw [itemsPlain, ih]; rfl

theorem entriesPlain_eq (es : Entries) (name : String) :
    entriesPlain es name = (es.find? name).map plain := by
  induction es with
  | nil => rw [entriesPlain]; rfl
  | cons e es ih =>
    obtain ⟨k, n⟩ := e
    rw [entriesPlain]
    by_cases hk : k.name = name
    · simp [Entries.find?, hk]
    · simpa [Entries.find?, hk] using ih

theorem elementsPlain_eq (ts : List (TableStyle × Entries)) :
    elementsPlain ts = (ts.map fun (style, es) => table style es).map plain := by
  induction ts with
  | nil => rw [elementsPlain]; rfl
  | cons t ts ih =>
    obtain ⟨style, es⟩ := t
    rw [elementsPlain, ih, List.map_cons, List.map_cons, plain]

theorem items?_plain (n : Node) : n.plain.items? = n.elements?.map (·.map plain) := by
  cases n with
  | scalar => rw [plain]; rfl
  | array s items comma closing =>
    rw [plain, itemsPlain_eq]
    rfl
  | table => rw [plain]; rfl
  | tables elements =>
    rw [plain, elementsPlain_eq]
    rfl

theorem fields?_plain (n : Node) : n.plain.fields? = n.entries?.map entriesPlain := by
  cases n <;> rw [plain] <;> rfl

end Node

/-! ## Documents -/

/-- Documents that say the same, in tables and lists of the same integers. -/
structure Document.Alike (d d' : Document) : Prop where
  plain : Node.entriesPlain d.root = Node.entriesPlain d'.root
  integers : ∀ p, d.integersAll p = d'.integersAll p

/-- The text of the document is read as a document that says the same. -/
def Document.Faithful (d : Document) : Prop :=
  ∃ read, Document.parse? d.text = some read ∧ read.Alike d

end DnsGate.Toml

namespace DnsGate.Settings

open Toml (Node Entries Document)

/-! ## Decoding what is said -/

/-- A decoder that goes by what a node says. -/
def Decoder.Plain {α : Type} (d : Decoder α) : Prop :=
  ∀ n n' : Node, n.plain = n'.plain → d n = d n'

/-- Fields that say the same. -/
structure Fields.Alike (f f' : Fields) : Prop where
  find? : ∀ place name, (f.find? place name).map Node.plain = (f'.find? place name).map Node.plain
  named : (∃ es, f = .named es) ↔ ∃ es, f' = .named es

section Decoders

variable {α : Type} {d : Decoder α} {f f' : Fields} {n n' : Node}

theorem scalar?_congr (h : n.plain = n'.plain) : n.scalar? = n'.scalar? := by
  rw [← Node.scalar?_plain, h, Node.scalar?_plain]

theorem elements?_congr (h : n.plain = n'.plain) :
    n.elements?.map (·.map Node.plain) = n'.elements?.map (·.map Node.plain) := by
  rw [← Node.items?_plain, h, Node.items?_plain]

theorem entries?_congr (h : n.plain = n'.plain) :
    n.entries?.map Node.entriesPlain = n'.entries?.map Node.entriesPlain := by
  rw [← Node.fields?_plain, h, Node.fields?_plain]

theorem plain_text : Decoder.Plain Decoder.text := by
  intro n n' h
  unfold Decoder.text
  rw [scalar?_congr h]

theorem plain_boolean : Decoder.Plain Decoder.boolean := by
  intro n n' h
  unfold Decoder.boolean
  rw [scalar?_congr h]

theorem plain_integer (fits : Int → Bool) : Decoder.Plain (Decoder.integer fits) := by
  intro n n' h
  unfold Decoder.integer
  rw [scalar?_congr h]

theorem plain_natural (bound : Nat) : Decoder.Plain (Decoder.natural bound) := by
  intro n n' h
  unfold Decoder.natural
  rw [plain_integer _ n n' h]

theorem mapM_plain (hd : d.Plain) {ns ns' : List Node} (h : ns.map Node.plain = ns'.map Node.plain) :
    ns.mapM d = ns'.mapM d := by
  induction ns generalizing ns' with
  | nil =>
    cases ns' with
    | nil => rfl
    | cons => cases h
  | cons n ns ih =>
    cases ns' with
    | nil => cases h
    | cons n' ns' =>
      obtain ⟨hn, hns⟩ := List.cons.inj h
      rw [List.mapM_cons, List.mapM_cons, hd n n' hn, ih hns]

theorem plain_texts : Decoder.Plain Decoder.texts := by
  intro n n' h
  have helements := elements?_congr h
  unfold Decoder.texts
  cases hn : n.elements? with
  | none =>
    rw [hn] at helements
    rw [Option.map_eq_none_iff.mp helements.symm]
  | some ns =>
    rw [hn] at helements
    obtain ⟨ns', hns', heq⟩ := Option.map_eq_some_iff.mp helements.symm
    rw [hns', Option.bind_some, Option.bind_some, mapM_plain plain_text heq]

/-! ### Parts -/

theorem alike_named {es es' : Entries} (h : Node.entriesPlain es = Node.entriesPlain es') :
    Fields.Alike (.named es) (.named es') where
  find? := by
    intro place name
    have hname := congrFun h name
    rwa [Node.entriesPlain_eq, Node.entriesPlain_eq] at hname
  named := ⟨fun _ => ⟨es', rfl⟩, fun _ => ⟨es, rfl⟩⟩

theorem alike_placed {ns ns' : List Node} (h : ns.map Node.plain = ns'.map Node.plain) :
    Fields.Alike (.placed ns) (.placed ns') where
  find? := by
    intro place name
    show ns[place]?.map _ = ns'[place]?.map _
    rw [← List.getElem?_map, h, List.getElem?_map]
  named := ⟨fun ⟨_, h⟩ => Fields.noConfusion h, fun ⟨_, h⟩ => Fields.noConfusion h⟩

/-- The fields of nodes that say the same. -/
theorem fields_alike (h : n.plain = n'.plain) :
    Option.Rel Fields.Alike (Fields.of? n) (Fields.of? n') := by
  have hentries := entries?_congr h
  have helements := elements?_congr h
  unfold Fields.of?
  cases hn : n.entries? with
  | some es =>
    rw [hn] at hentries
    obtain ⟨es', hes', heq⟩ := Option.map_eq_some_iff.mp hentries.symm
    rw [hes']
    exact .some (alike_named heq.symm)
  | none =>
    rw [hn] at hentries
    rw [Option.map_eq_none_iff.mp hentries.symm]
    cases hns : n.elements? with
    | some ns =>
      rw [hns] at helements
      obtain ⟨ns', hns', heq⟩ := Option.map_eq_some_iff.mp helements.symm
      rw [hns']
      exact .some (alike_placed heq.symm)
    | none =>
      rw [hns] at helements
      rw [Option.map_eq_none_iff.mp helements.symm]
      exact .none

theorem Fields.Alike.get (h : f.Alike f') (hd : d.Plain) (place : Nat) (name : String)
    (default : α) : f.get place name d default = f'.get place name d default := by
  have hfind := h.find? place name
  unfold Fields.get
  cases hn : f.find? place name with
  | none =>
    rw [hn] at hfind
    rw [Option.map_eq_none_iff.mp hfind.symm]
  | some n =>
    rw [hn] at hfind
    obtain ⟨n', hn', heq⟩ := Option.map_eq_some_iff.mp hfind.symm
    rw [hn']
    exact hd n n' heq.symm

theorem Fields.Alike.get? (h : f.Alike f') (hd : d.Plain) (place : Nat) (name : String) :
    f.get? place name d = f'.get? place name d := by
  have hfind := h.find? place name
  unfold Fields.get?
  cases hn : f.find? place name with
  | none =>
    rw [hn] at hfind
    rw [Option.map_eq_none_iff.mp hfind.symm]
    cases f with
    | named es =>
      obtain ⟨es', rfl⟩ := h.named.mp ⟨es, rfl⟩
      rfl
    | placed ns =>
      cases f' with
      | named es' =>
        obtain ⟨es, hes⟩ := h.named.mpr ⟨es', rfl⟩
        cases hes
      | placed ns' => rfl
  | some n =>
    rw [hn] at hfind
    obtain ⟨n', hn', heq⟩ := Option.map_eq_some_iff.mp hfind.symm
    rw [hn']
    exact congrArg (Option.map some) (hd n n' heq.symm)

/-- A part goes by what its fields say. -/
theorem plain_part {g : Fields → Option α} (h : ∀ f f', f.Alike f' → g f = g f') :
    Decoder.Plain fun n => (Fields.of? n).bind g := by
  intro n n' hn
  dsimp only
  rcases Fields.of? n, Fields.of? n', fields_alike hn with ⟨_, _, hf | _⟩
  · exact h _ _ hf
  · rfl

theorem plain_server : Decoder.Plain Decoder.server :=
  plain_part fun f f' h => by
    rw [h.get plain_texts, h.get fun n n' hn => by rw [plain_text n n' hn]]

theorem plain_logging : Decoder.Plain Decoder.logging :=
  plain_part fun f f' h => by rw [h.get plain_text]

theorem plain_forwarding : Decoder.Plain Decoder.forwarding :=
  plain_part fun f f' h => by rw [h.get plain_texts, h.get (plain_natural _)]

theorem plain_ipSets : Decoder.Plain Decoder.ipSets :=
  plain_part fun f f' h => by rw [h.get? plain_text, h.get? plain_text, h.get (plain_natural _)]

theorem plain_rules : Decoder.Plain Decoder.rules :=
  plain_part fun f f' h => by rw [h.get plain_texts, h.get plain_texts]

theorem plain_blocking : Decoder.Plain Decoder.blocking :=
  plain_part fun f f' h => by
    rw [h.get plain_boolean, h.get plain_texts, h.get (plain_integer _)]

/-- Settings go by what their document says. -/
theorem ofDocument?_alike {d d' : Document} (h : d.Alike d') : ofDocument? d = ofDocument? d' := by
  have hf := alike_named h.plain
  unfold ofDocument?
  dsimp only
  rw [hf.get plain_server, hf.get plain_logging, hf.get plain_forwarding, hf.get plain_ipSets,
    hf.get plain_rules, hf.get plain_blocking]

end Decoders

end DnsGate.Settings

namespace DnsGate.Toml

/-! ## Sheets that are read -/

namespace Node

mutual

/-- Spelling the usual blanks out changes nothing of what a node says. -/
theorem plain_spelled (usual : Usual) : ∀ n : Node, (n.spelled usual).plain = n.plain
  | scalar s written value => by rw [spelled, plain, plain]
  | array s items comma closing => by
    rw [spelled, plain, plain, itemsPlain_spelled firstItemUsual items]
  | table style es => by rw [spelled]
  | tables elements => by rw [spelled]

theorem itemsPlain_spelled (usual : Usual) :
    ∀ ns : List Node, itemsPlain (itemsSpelled usual ns) = itemsPlain ns
  | [] => by rw [itemsSpelled]
  | n :: ns => by
    rw [itemsSpelled, itemsPlain, itemsPlain, plain_spelled usual n, itemsPlain_spelled valueUsual ns]

end

mutual

theorem integersAll_spelled (p : Int → Bool) (usual : Usual) :
    ∀ n : Node, (n.spelled usual).integersAll p = n.integersAll p
  | scalar s written value => by rw [spelled]; cases value <;> simp only [integersAll]
  | array s items comma closing => by
    rw [spelled, integersAll, integersAll, itemsAll_spelled p firstItemUsual items]
  | table style es => by rw [spelled]
  | tables elements => by rw [spelled]

theorem itemsAll_spelled (p : Int → Bool) (usual : Usual) :
    ∀ ns : List Node, itemsAll p (itemsSpelled usual ns) = itemsAll p ns
  | [] => by rw [itemsSpelled]
  | n :: ns => by
    rw [itemsSpelled, itemsAll, itemsAll, integersAll_spelled p usual n,
      itemsAll_spelled p valueUsual ns]

end

/-- What a table says with the usual blanks spelled out. -/
theorem entriesPlain_spelled (es : Entries) : entriesPlain (es.map spelledPair) = entriesPlain es := by
  induction es with
  | nil => rfl
  | cons e es ih =>
    funext name
    rw [List.map_cons, spelledPair, entriesPlain, entriesPlain, ih, plain_spelled]
    rfl

theorem entriesAll_spelled (p : Int → Bool) (es : Entries) :
    entriesAll p (es.map spelledPair) = entriesAll p es := by
  induction es with
  | nil => rfl
  | cons e es ih =>
    rw [List.map_cons, spelledPair, entriesAll, entriesAll, ih, integersAll_spelled]

end Node

namespace Sheet

theorem alike_tablesSpelled (first : Bool) (position : Nat) (ts : List Table) :
    Node.entriesPlain ((tablesSpelled first position ts).map Table.entry) =
        Node.entriesPlain (ts.map Table.entry) ∧
      ∀ p, Node.entriesAll p ((tablesSpelled first position ts).map Table.entry) =
        Node.entriesAll p (ts.map Table.entry) := by
  induction ts generalizing first position with
  | nil => exact ⟨rfl, fun _ => rfl⟩
  | cons t ts ih =>
    obtain ⟨hplain, hall⟩ := ih false (position + 1)
    refine ⟨?_, fun p => ?_⟩
    · funext name
      rw [tablesSpelled, List.map_cons, List.map_cons, Table.entry, Table.entry,
        Node.entriesPlain, Node.entriesPlain, hplain, Node.plain, Node.plain]
      show (if t.key.name = name then some (Plain.table (Node.entriesPlain (t.entries.map spelledPair)))
        else _) = _
      rw [Node.entriesPlain_spelled]
    · rw [tablesSpelled, List.map_cons, List.map_cons, Table.entry, Table.entry,
        Node.entriesAll, Node.entriesAll, hall, Node.integersAll, Node.integersAll]
      show (Node.entriesAll p (t.entries.map spelledPair) && _) = _
      rw [Node.entriesAll_spelled]

theorem alike_spelled (s : Sheet) : s.spelled.document.Alike s.document where
  plain := (alike_tablesSpelled true 1 s.tables).1
  integers := (alike_tablesSpelled true 1 s.tables).2

/-- What is read of a legible sheet says what the sheet says. -/
theorem Legible.faithful {s : Sheet} (h : s.Legible) : s.document.Faithful :=
  ⟨s.spelled.document, h.parse?, s.alike_spelled⟩

end Sheet

end DnsGate.Toml
