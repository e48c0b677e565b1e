import Mathlib.Data.List.Nodup
import DnsGate.Proofs.SheetText
import DnsGate.Toml.Edit

/-!
Sheets that are read and edited.  Spelling out the usual blanks keeps a sheet legible, and so does
putting a list under a key that needs no quotes.
-/

namespace DnsGate.Toml

/-! ## Sheets that were read -/

theorem Key.Legible.spelled {k : Key} (h : k.Legible) (usual : Usual) : (k.spelled usual).Legible :=
  ⟨h.reads, h.clean⟩

theorem LegiblePair.spelled {e : Key × Node} (h : LegiblePair e) : LegiblePair (spelledPair e) where
  key := h.key.spelled lineKeyUsual
  keySpacing := h.keySpacing.spelled .nil blanks_one
  value := h.value.spelled valueUsual
  valueSpacing := by
    show (e.2.spelled valueUsual).spacing.Fits Blanks LineEnd
    rw [h.value.spacing_spelled]
    exact h.valueSpacing.spelled blanks_one (.blanks blanks_nil)

theorem Table.Legible.spelled {t : Table} (h : t.Legible) (first : Bool) (position : Nat) :
    (t.spelled first position).Legible where
  written := ⟨rfl, rfl, rfl⟩
  header := {
    key := h.header.key.spelled headerKeyUsual
    keySpacing := h.header.keySpacing.spelled blanks_nil blanks_nil
    spacing := h.header.spacing.spelled (trivia_headerUsual first) (.blanks blanks_nil) }
  pairs := by
    intro e he
    obtain ⟨d, hd, rfl⟩ := List.mem_map.mp he
    exact (h.pairs d hd).spelled
  names := by
    have hnames := h.names
    simpa [Table.spelled, spelledPair, Key.spelled, Function.comp_def] using hnames

section Spelled

variable {ts : List Table}

theorem mem_tablesSpelled {first : Bool} {position : Nat} {u : Table}
    (h : u ∈ tablesSpelled first position ts) :
    ∃ t ∈ ts, ∃ first position, u = t.spelled first position := by
  induction ts generalizing first position with
  | nil => cases h
  | cons t ts ih =>
    rcases List.mem_cons.mp h with rfl | h
    · exact ⟨t, List.mem_cons_self, first, position, rfl⟩
    · obtain ⟨t, ht, first, position, rfl⟩ := ih h
      exact ⟨t, List.mem_cons_of_mem _ ht, first, position, rfl⟩

theorem names_tablesSpelled (first : Bool) (position : Nat) :
    (tablesSpelled first position ts).map (·.key.name) = ts.map (·.key.name) := by
  induction ts generalizing first position with
  | nil => rfl
  | cons t ts ih => rw [tablesSpelled, List.map_cons, List.map_cons, ih]; rfl

theorem inOrder_tablesSpelled {last position : Nat} (h : last ≤ position) (first : Bool) :
    InOrder last (tablesSpelled first position ts) := by
  induction ts generalizing last first position with
  | nil => trivial
  | cons t ts ih => exact ⟨h, ih (Nat.le_succ position) false⟩

end Spelled

theorem Sheet.Legible.spelled {s : Sheet} (h : s.Legible) : s.spelled.Legible where
  tables := by
    intro u hu
    obtain ⟨t, ht, first, position, rfl⟩ := mem_tablesSpelled hu
    exact (h.tables t ht).spelled first position
  names := by
    show ((tablesSpelled true 1 s.tables).map (·.key.name)).Nodup
    rw [names_tablesSpelled]
    exact h.names
  order := inOrder_tablesSpelled (Nat.zero_le 1) true
  closing := h.closing
  clean := h.clean

/-! ## Elements by name -/

/-- Changes the element of a name, or adds a new one at the end. -/
def upsert {α : Type} (nameOf : α → String) (name : String) (f : α → α) (new : α) : List α → List α
  | [] => [new]
  | a :: as => if nameOf a = name then f a :: as else a :: upsert nameOf name f new as

section Upsert

variable {α : Type} {nameOf : α → String} {name : String} {f : α → α} {new : α}

theorem forall_mem_upsert {P : α → Prop} (hnew : P new) (hf : ∀ a, nameOf a = name → P a → P (f a))
    {as : List α} (h : ∀ a ∈ as, P a) : ∀ a ∈ upsert nameOf name f new as, P a := by
  induction as with
  | nil => exact List.forall_mem_singleton.mpr hnew
  | cons b as ih =>
    obtain ⟨hb, has⟩ := List.forall_mem_cons.mp h
    rw [upsert]
    split
    · rename_i hname
      exact List.forall_mem_cons.mpr ⟨hf b hname hb, has⟩
    · exact List.forall_mem_cons.mpr ⟨hb, ih has⟩

theorem names_upsert (hnew : nameOf new = name) (hf : ∀ a, nameOf (f a) = nameOf a) (as : List α) :
    (upsert nameOf name f new as).map nameOf =
      if name ∈ as.map nameOf then as.map nameOf else as.map nameOf ++ [name] := by
  induction as with
  | nil => simp [upsert, hnew]
  | cons b as ih =>
    rw [upsert]
    split
    · rename_i hb
      simp [hb, hf]
    · rename_i hb
      rw [List.map_cons, ih, List.map_cons]
      by_cases hmem : name ∈ as.map nameOf
      · simp [hmem]
      · simp [hmem, Ne.symm hb]

theorem upsert_of_notMem {as : List α} (h : name ∉ as.map nameOf) :
    upsert nameOf name f new as = as ++ [new] := by
  induction as with
  | nil => rfl
  | cons b as ih =>
    rw [List.map_cons, List.mem_cons, not_or] at h
    rw [upsert, if_neg (Ne.symm h.1), ih h.2, List.cons_append]

theorem nodup_upsert (hnew : nameOf new = name) (hf : ∀ a, nameOf (f a) = nameOf a) {as : List α}
    (h : (as.map nameOf).Nodup) : ((upsert nameOf name f new as).map nameOf).Nodup := by
  rw [names_upsert hnew hf]
  split
  · exact h
  · rename_i hmem
    exact List.concat_eq_append ▸ h.concat hmem

end Upsert

/-! ## Lists that are put -/

/-- A name that needs no quotes as a key. -/
def PlainName (name : String) : Prop :=
  name.toList ≠ [] ∧ name.toList.all isBareKey = true

instance (name : String) : Decidable (PlainName name) := inferInstanceAs (Decidable (_ ∧ _))

theorem PlainName.legible {name : String} (h : PlainName name) (outer inner : Spacing) :
    Key.Legible ⟨name, name.toList, outer, inner⟩ :=
  Key.legible_plain h.1 (List.all_eq_true.mp h.2) outer inner

theorem fits_default (before after : List Char → Prop) : Spacing.Fits before after {} where
  before := fun _ h => by cases h
  after := fun _ h => by cases h

theorem legible_ofTexts (depth : Nat) (texts : List String) :
    (Node.ofTexts texts).Legible (depth + 1) := by
  refine .array ?_ ?_ .nil (fun _ => rfl) fun _ _ => rfl
  · intro n hn
    obtain ⟨s, -, rfl⟩ := List.mem_map.mp hn
    exact .scalar (spells_quote s)
  · intro n hn
    obtain ⟨s, -, rfl⟩ := List.mem_map.mp hn
    exact fits_default Trivia Trivia

/-- A pair whose value was put: its key is written without quotes, with the usual blanks. -/
def putPair (name : String) (n : Node) (e : Key × Node) : Key × Node :=
  ({ e.1 with written := name.toList, outer := {}, inner := {} }, n)

theorem put_eq_upsert (name : String) (n : Node) (es : Entries) :
    Entries.put name n es =
      upsert (·.1.name) name (putPair name n) (.plain name, n) es := by
  induction es with
  | nil => rfl
  | cons e es ih => rw [Entries.put, upsert, ih]; rfl

section Put

variable {table key : String} {texts : List String}

theorem legiblePair_plain (hkey : PlainName key) :
    LegiblePair (.plain key, .ofTexts texts) where
  key := hkey.legible {} {}
  keySpacing := fits_default Trivia Blanks
  value := legible_ofTexts 79 texts
  valueSpacing := fits_default Blanks LineEnd

theorem legiblePair_of_mem_put (hkey : PlainName key) {es : Entries}
    (hes : ∀ e ∈ es, LegiblePair e) : ∀ e ∈ Entries.put key (.ofTexts texts) es, LegiblePair e := by
  rw [put_eq_upsert]
  refine forall_mem_upsert (legiblePair_plain hkey) (fun e he _ => ?_) hes
  obtain ⟨k, n⟩ := e
  cases he
  exact legiblePair_plain hkey

theorem nodup_put {es : Entries} (n : Node) (h : (es.map (·.1.name)).Nodup) :
    ((Entries.put key n es).map (·.1.name)).Nodup := by
  rw [put_eq_upsert]
  exact nodup_upsert (by rfl) (fun _ => by rfl) h

/-- A table with a list put under a key. -/
def Table.put (key : String) (texts : List String) (t : Table) : Table :=
  { t with entries := Entries.put key (.ofTexts texts) t.entries }

theorem Table.Legible.put (hkey : PlainName key) {t : Table} (h : t.Legible) :
    (t.put key texts).Legible where
  written := h.written
  header := h.header
  pairs := legiblePair_of_mem_put hkey h.pairs
  names := nodup_put _ h.names

/-- A new table with a list. -/
def Table.new (table key : String) (texts : List String) : Table :=
  ⟨.plain table, {}, Entries.put key (.ofTexts texts) []⟩

theorem Table.legible_new (htable : PlainName table) (hkey : PlainName key) :
    (Table.new table key texts).Legible where
  written := ⟨rfl, rfl, rfl⟩
  header := ⟨htable.legible {} {}, fits_default Blanks Blanks, fits_default Trivia LineEnd⟩
  pairs := legiblePair_of_mem_put hkey fun _ h => absurd h List.not_mem_nil
  names := List.nodup_singleton key

namespace Sheet

/-- A sheet with a list put under a key of a table, which is made at the end if it is missing. -/
def put (table key : String) (texts : List String) (s : Sheet) : Sheet :=
  { s with tables := upsert (·.key.name) table (Table.put key texts) (.new table key texts) s.tables }

theorem inOrder_put {last : Nat} {ts : List Table} (h : InOrder last ts) :
    InOrder last (upsert (·.key.name) table (Table.put key texts) (.new table key texts) ts) := by
  induction ts generalizing last with
  | nil => exact ⟨le_rfl, trivial⟩
  | cons t ts ih =>
    rw [upsert]
    split
    · exact h
    · exact ⟨h.1, ih h.2⟩

theorem Legible.put (htable : PlainName table) (hkey : PlainName key) {s : Sheet} (h : s.Legible) :
    (s.put table key texts).Legible where
  tables := forall_mem_upsert (Table.legible_new htable hkey) (fun _ _ ht => ht.put hkey) h.tables
  names := nodup_upsert (by rfl) (fun _ => by rfl) h.names
  order := inOrder_put h.order
  closing := h.closing
  clean := h.clean

theorem modify?_tables {ts : List Table} (h : table ∈ ts.map (·.key.name))
    {f : Node → Option Node}
    (hf : ∀ style es, f (.table style es) =
      some (.table style (Entries.put key (.ofTexts texts) es))) :
    Entries.modify? table f (ts.map Table.entry) = some ((upsert (·.key.name) table
      (Table.put key texts) (.new table key texts) ts).map Table.entry) := by
  induction ts with
  | nil => cases h
  | cons t ts ih =>
    rw [upsert]
    split
    · rename_i ht
      show Entries.modify? table f ((t.key, .table t.style t.entries) :: ts.map Table.entry) = _
      rw [Entries.modify?, if_pos ht, hf]
      rfl
    · rename_i ht
      have hmem := (List.mem_cons.mp h).resolve_left (Ne.symm ht)
      show Entries.modify? table f ((t.key, .table t.style t.entries) :: ts.map Table.entry) = _
      rw [Entries.modify?, if_neg ht, ih hmem]
      rfl

/-- Putting a list into the document of a sheet is putting it into the sheet. -/
theorem putTexts?_document (s : Sheet) (table key : String) (texts : List String) :
    s.document.putTexts? table key texts = some (s.put table key texts).document := by
  have hnames : s.document.root.map (·.1.name) = s.tables.map (·.key.name) := by
    simp [document, Table.entry, Function.comp_def]
  unfold Document.putTexts?
  cases hfind : s.document.root.find? table with
  | none =>
    have hnew := hnames ▸ find?_eq_none_iff.mp hfind
    rw [put, upsert_of_notMem hnew]
    simp [document, Table.entry, Table.new]
  | some n =>
    have hmem : table ∈ s.tables.map (·.key.name) := by
      by_contra hnew
      rw [find?_eq_none_iff.mpr (hnames ▸ hnew)] at hfind
      cases hfind
    show (Entries.modify? table _ (s.tables.map Table.entry)).map _ = _
    rw [modify?_tables hmem fun _ _ => rfl]
    rfl

end Sheet

end Put

end DnsGate.Toml
