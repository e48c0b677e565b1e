import DnsGate.Proofs.DiskFiles
import DnsGate.Proofs.WrittenSettings
import DnsGate.Settings.File

/-!
The lists of the editable sections in the content that is saved.  A list that is put into a document
is found there, and every other list stays as it is (`putTexts?_texts`).  The settings that are
written where no file stands are the text of a document as well (`render_eq_text`).  So the new
content of the settings file is always the text of a document that holds the lists that were to be
saved (`content_holds`).  If the old content is a sheet, or none is there, the new one is a sheet
again, and reading it gives the lists (`content_reads`).
-/

namespace DnsGate

/-! ## Lists in documents -/

/-- The entries of a table. -/
def Toml.Document.table? (d : Toml.Document) (table : String) : Option Toml.Entries :=
  (d.root.find? table).bind Toml.Node.entries?

/-- The texts of the list under a key of a table. -/
def Toml.Document.texts? (d : Toml.Document) (table key : String) : Option (List String) :=
  (d.table? table).bind fun es => (es.find? key).bind Settings.Decoder.texts

/-- The three lists that are saved. -/
def Toml.Document.sections? (d : Toml.Document) : Option Rules.Sections := do
  return ⟨← d.texts? "rules" "domains", ← d.texts? "rules" "suffixes",
    ← d.texts? "blocklist" "urls"⟩

namespace Toml

theorem Entries.find?_modify {name : String} {f : Node → Option Node} {es es' : Entries}
    (h : Entries.modify? name f es = some es') :
    ∃ old new, es.find? name = some old ∧ f old = some new ∧
      ∀ other, es'.find? other = if other = name then some new else es.find? other := by
  induction es generalizing es' with
  | nil => cases h
  | cons e es ih =>
    obtain ⟨k, n⟩ := e
    rw [modify?] at h
    split at h
    · rename_i hk
      obtain ⟨new, hnew, rfl⟩ := Option.map_eq_some_iff.mp h
      refine ⟨n, new, by simp [find?, hk], hnew, ?_⟩
      intro other
      by_cases hother : other = name
      · simp [find?, hk, hother]
      · simp [find?, hk, hother, Ne.symm hother]
    · rename_i hk
      obtain ⟨rest, hrest, rfl⟩ := Option.map_eq_some_iff.mp h
      obtain ⟨old, new, hold, hnew, hothers⟩ := ih hrest
      refine ⟨old, new, by simpa [find?, hk] using hold, hnew, ?_⟩
      intro other
      have hother := hothers other
      simp only [find?] at hother ⊢
      by_cases hkey : k.name = other
      · have hname : other ≠ name := fun hname => hk (hkey.trans hname)
        simp [hkey, hname]
      · simp [hkey, hother]

/-- Texts are read back from their scalars, whatever stands around them. -/
theorem mapM_text_textNode (spacing : Spacing) (texts : List String) :
    (texts.map (Settings.Value.textNode spacing)).mapM Settings.Decoder.text = some texts := by
  rw [List.mapM_map]
  exact (List.mapM_pure (f := id)).trans (congrArg some (List.map_id _))

namespace Document

variable {d d' : Document} {table key : String} {texts : List String}

/-- What stands in the root after a list was put: its table, and everything else as it was. -/
theorem putTexts?_root (h : d.putTexts? table key texts = some d') :
    (∃ style, d'.root.find? table = some (.table style
      (Entries.put key (.ofTexts texts) ((d.table? table).getD [])))) ∧
    ∀ other, other ≠ table → d'.root.find? other = d.root.find? other := by
  unfold putTexts? at h
  cases hfind : d.root.find? table with
  | none =>
    rw [hfind] at h
    cases h
    have hnew : d.table? table = none := by rw [table?, hfind]; rfl
    have hold : List.find? (fun e => decide (e.1.name = table)) d.root = none :=
      Option.map_eq_none_iff.mp hfind
    rw [hnew]
    refine ⟨⟨{}, by simp [Entries.find?, hold, Key.plain]⟩, fun other hother => ?_⟩
    simp [Entries.find?, Key.plain, Ne.symm hother]
  | some n =>
    rw [hfind] at h
    obtain ⟨root, hroot, rfl⟩ := Option.map_eq_some_iff.mp h
    obtain ⟨old, new, hold, hnew, hothers⟩ := Entries.find?_modify hroot
    cases hfind.symm.trans hold
    cases n with
    | table style es =>
      cases hnew
      have hes : d.table? table = some es := by rw [table?, hfind]; rfl
      rw [hes]
      exact ⟨⟨style, (hothers table).trans (if_pos rfl)⟩,
        fun other hother => (hothers other).trans (if_neg hother)⟩
    | _ => cases hnew

theorem putTexts?_table (h : d.putTexts? table key texts = some d') (other : String) :
    d'.table? other = if other = table then
        some (Entries.put key (.ofTexts texts) ((d.table? table).getD []))
      else d.table? other := by
  obtain ⟨⟨style, htable⟩, hothers⟩ := putTexts?_root h
  by_cases hother : other = table
  · subst hother
    rw [if_pos rfl, table?, htable]
    rfl
  · rw [if_neg hother, table?, hothers other hother, table?]

/-- A list that was put is found, and the others are as they were. -/
theorem putTexts?_texts (h : d.putTexts? table key texts = some d') (table' key' : String) :
    d'.texts? table' key' =
      if table' = table ∧ key' = key then some texts else d.texts? table' key' := by
  rw [texts?, putTexts?_table h]
  by_cases htable : table' = table
  · subst htable
    rw [if_pos rfl, Option.bind_some, Entries.find?_put]
    by_cases hkey : key' = key
    · rw [if_pos hkey, if_pos ⟨rfl, hkey⟩]
      exact mapM_text_textNode {} texts
    · rw [if_neg hkey, if_neg (fun hboth => hkey hboth.2), texts?]
      cases d.table? table' with
      | none => rfl
      | some es => rfl
  · rw [if_neg htable, if_neg (fun hboth => htable hboth.1)]
    rfl

/-- A document with the three lists put in. -/
def putSections? (d : Document) (c : Rules.Sections) : Option Document := do
  let d ← d.putTexts? "rules" "domains" c.domains
  let d ← d.putTexts? "rules" "suffixes" c.suffixes
  d.putTexts? "blocklist" "urls" c.sources

theorem putSections?_eq_some_iff {c : Rules.Sections} : d.putSections? c = some d' ↔ ∃ d₁ d₂,
    d.putTexts? "rules" "domains" c.domains = some d₁ ∧
      d₁.putTexts? "rules" "suffixes" c.suffixes = some d₂ ∧
      d₂.putTexts? "blocklist" "urls" c.sources = some d' := by
  simp only [putSections?, Option.bind_eq_bind, Option.bind_eq_some_iff, exists_and_left]

theorem sections?_putSections {c : Rules.Sections} (h : d.putSections? c = some d') :
    d'.sections? = some c := by
  obtain ⟨d₁, d₂, h₁, h₂, h₃⟩ := putSections?_eq_some_iff.mp h
  have hdomains := putTexts?_texts h₁
  have hsuffixes := putTexts?_texts h₂
  have hsources := putTexts?_texts h₃
  simp [sections?, hsources, hsuffixes, hdomains]

end Document

/-! ## Lists in sheets -/

namespace Sheet

/-- A sheet with the three lists put in. -/
def putSections (c : Rules.Sections) (s : Sheet) : Sheet :=
  ((s.put "rules" "domains" c.domains).put "rules" "suffixes" c.suffixes).put "blocklist" "urls"
    c.sources

theorem putSections?_document (c : Rules.Sections) (s : Sheet) :
    s.document.putSections? c = some (s.putSections c).document := by
  simp only [Document.putSections?, putTexts?_document, Option.bind_eq_bind, Option.bind_some]
  rfl

theorem Legible.putSections (c : Rules.Sections) {s : Sheet} (h : s.Legible) :
    (s.putSections c).Legible :=
  ((h.put (by decide +kernel) (by decide +kernel)).put (by decide +kernel) (by decide +kernel)).put
    (by decide +kernel) (by decide +kernel)

/-- What stands under a name of the root of a sheet is one of its tables. -/
theorem find?_document (s : Sheet) (table : String) : s.document.root.find? table =
    (s.tables.find? (·.key.name = table)).map fun t => .table t.style t.entries := by
  show Entries.find? (s.tables.map Table.entry) table = _
  rw [Entries.find?, List.find?_map, Option.map_map]
  rfl

theorem table?_document (s : Sheet) (table : String) :
    s.document.table? table = (s.tables.find? (·.key.name = table)).map (·.entries) := by
  rw [Document.table?, find?_document]
  cases s.tables.find? (·.key.name = table) <;> rfl

theorem find?_tablesSpelled (first : Bool) (position : Nat) (ts : List Table) (table : String) :
    ((tablesSpelled first position ts).find? (·.key.name = table)).map (·.entries) =
      ((ts.find? (·.key.name = table)).map (·.entries)).map (·.map spelledPair) := by
  induction ts generalizing first position with
  | nil => rfl
  | cons t ts ih =>
    have hname : (t.spelled first position).key.name = t.key.name := rfl
    rw [tablesSpelled, List.find?_cons, List.find?_cons, hname]
    split
    · rfl
    · exact ih false (position + 1)

/-- A sheet whose usual blanks are spelled out has the same lists. -/
theorem texts?_spelled (s : Sheet) (table key : String) :
    s.spelled.document.texts? table key = s.document.texts? table key := by
  have hentries (es : Entries) : Entries.find? (es.map spelledPair) key =
      (es.find? key).map (Node.spelled valueUsual) := by
    rw [Entries.find?, Entries.find?, List.find?_map, Option.map_map, Option.map_map]
    rfl
  rw [Document.texts?, Document.texts?, table?_document, table?_document, spelled,
    find?_tablesSpelled]
  cases (s.tables.find? (·.key.name = table)).map (·.entries) with
  | none => rfl
  | some es =>
    rw [Option.map_some, Option.bind_some, Option.bind_some, hentries]
    cases es.find? key with
    | none => rfl
    | some n => exact Node.decodeTexts_spelled n valueUsual

theorem sections?_spelled (s : Sheet) : s.spelled.document.sections? = s.document.sections? := by
  simp only [Document.sections?, texts?_spelled]

end Sheet

/-- The text is read as a sheet. -/
def IsSheet (text : String) : Prop :=
  ∃ s : Sheet, s.Legible ∧ Document.parse? text = some s.document

/-- The text is read as a sheet that holds lists. -/
def SheetHolds (text : String) (c : Rules.Sections) : Prop :=
  ∃ s : Sheet, s.Legible ∧ Document.parse? text = some s.document ∧ s.document.sections? = some c

theorem Sheet.Legible.sheetHolds {s : Sheet} {c : Rules.Sections} (h : s.Legible)
    (hs : s.document.sections? = some c) : SheetHolds s.document.text c :=
  ⟨s.spelled, h.spelled, h.parse?, s.sections?_spelled.trans hs⟩

end Toml

namespace Settings

/-! ## Files that are edited -/

theorem putList_eq_ok_iff {table key : String} {texts : List String} {d d' : Toml.Document} :
    putList table key texts d = .ok d' ↔ d.putTexts? table key texts = some d' := by
  unfold putList
  cases d.putTexts? table key texts <;> simp

/-- What is merged is the text of the old document with the lists put in. -/
theorem mergeSections_text {content text : String} {c : Rules.Sections}
    (h : mergeSections content c = .ok text) :
    ∃ d d' : Toml.Document, Toml.Document.parse? content = some d ∧ d.putSections? c = some d' ∧
      text = d'.text := by
  unfold mergeSections at h
  split at h
  · cases h
  · rename_i d hd
    obtain ⟨d₁, h₁, h⟩ := exists_of_bind_ok h
    obtain ⟨d₂, h₂, h⟩ := exists_of_bind_ok h
    obtain ⟨d₃, h₃, h⟩ := exists_of_bind_ok h
    cases h
    exact ⟨d, d₃, (Option.filter_eq_some_iff.mp hd).1,
      Toml.Document.putSections?_eq_some_iff.mpr ⟨d₁, d₂, putList_eq_ok_iff.mp h₁,
        putList_eq_ok_iff.mp h₂, putList_eq_ok_iff.mp h₃⟩, rfl⟩

/-! ## Files that are written anew -/

theorem texts_textsNode (ss : List String) :
    Decoder.texts (Value.textsNode ss) = some ss := by
  match ss with
  | [] => rfl
  | [s] => exact Toml.mapM_text_textNode {} [s]
  | s :: next :: ss => exact Toml.mapM_text_textNode ⟨some "\n    ".toList, none⟩ (s :: next :: ss)

theorem sheet_holds (s : Settings) (c : Rules.Sections) :
    (s.withSections c).sheet.document.sections? = some c := by
  have htexts (table key : String) (ss : List String)
      (h : ((s.withSections c).sheet.document.table? table).bind (·.find? key) =
        some (Value.textsNode ss)) :
      (s.withSections c).sheet.document.texts? table key = some ss := by
    rw [Toml.Document.texts?, ← Option.bind_assoc, h]
    exact texts_textsNode ss
  have hdomains := htexts "rules" "domains" c.domains rfl
  have hsuffixes := htexts "rules" "suffixes" c.suffixes rfl
  have hsources := htexts "blocklist" "urls" c.sources rfl
  simp [Toml.Document.sections?, hdomains, hsuffixes, hsources]

/-! ## New content -/

section Content

variable {k : Keeper} {disk : Files.Disk} {c : Rules.Sections} {text : String}

/-- The new content of the settings file is the text of a document that holds the lists. -/
theorem Keeper.content_holds (h : k.content disk c = .ok text) :
    ∃ d : Toml.Document, text = d.text ∧ d.sections? = some c := by
  unfold content at h
  split at h
  · obtain ⟨d, d', -, hput, rfl⟩ := mergeSections_text h
    exact ⟨d', rfl, Toml.Document.sections?_putSections hput⟩
  · cases h
    exact ⟨_, render_eq_text _, sheet_holds k.base c⟩
  · cases h

/-- If the old content is a sheet, or there is none, the new content is read as a sheet that holds
the lists. -/
theorem Keeper.content_reads (hold : ∀ old, disk.readText k.path = .ok old → Toml.IsSheet old)
    (h : k.content disk c = .ok text) : Toml.SheetHolds text c := by
  unfold content at h
  split at h
  · rename_i old hread
    obtain ⟨s, hs, hparse⟩ := hold old hread
    obtain ⟨d, d', hd, hput, rfl⟩ := mergeSections_text h
    -- what is put into the document of a sheet is put into the sheet
    cases hparse.symm.trans hd
    cases (s.putSections?_document c).symm.trans hput
    exact (hs.putSections c).sheetHolds (Toml.Document.sections?_putSections hput)
  · cases h
    rw [render_eq_text]
    exact (legible_sheet _).sheetHolds (sheet_holds k.base c)
  · cases h

end Content

end Settings

end DnsGate
