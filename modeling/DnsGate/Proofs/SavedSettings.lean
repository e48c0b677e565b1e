import DnsGate.Proofs.AtomicSave
import DnsGate.Proofs.PlainDocuments

/-!
Settings that are saved and loaded again.  Saving puts three lists into the document of the file;
what else the settings are made of stays as it is.  Main statement: if the file was loaded, its
sections of rules and blocklist are tables, and what is printed is read as it was meant, saving
succeeds and the new file is loaded as the old settings with the lists that were saved
(`save_round_trips`).  A section that is given as a list of its fields is loaded as well, but cannot
be saved (`placed_not_saved`).
-/

namespace DnsGate.Toml

/-! ## Tables that lists are put into -/

/-- What stands under a name of the root, if anything, is a table. -/
def Document.TableAt (d : Document) (name : String) : Prop :=
  ∀ n, d.root.find? name = some n → n.entries?.isSome

namespace Entries

/-- A key that is there can be changed if its value can. -/
theorem isSome_modify {name : String} {f : Node → Option Node} {es : Entries} {old : Node}
    (hold : es.find? name = some old) (hnew : (f old).isSome) : (modify? name f es).isSome := by
  induction es with
  | nil => cases hold
  | cons e es ih =>
    obtain ⟨k, n⟩ := e
    rw [modify?]
    split
    · rename_i hk
      have hn : some n = some old := by simpa [find?, hk] using hold
      cases hn
      rw [Option.isSome_map]
      exact hnew
    · rename_i hk
      rw [Option.isSome_map]
      exact ih (by simpa [find?, hk] using hold)

end Entries

namespace Document

variable {d d' : Document} {table key : String} {texts : List String}

theorem exists_putTexts (h : d.TableAt table) (key : String) (texts : List String) :
    ∃ d', d.putTexts? table key texts = some d' := by
  refine Option.isSome_iff_exists.mp ?_
  unfold putTexts?
  cases hfind : d.root.find? table with
  | none => rfl
  | some n =>
    have htable := h n hfind
    rw [Option.isSome_map]
    cases n with
    | table style es => exact Entries.isSome_modify hfind rfl
    | scalar | array | tables => cases htable

/-- Where a list was put, a table stood, if anything. -/
theorem tableAt_of_putTexts (h : d.putTexts? table key texts = some d') : d.TableAt table := by
  intro n hn
  unfold putTexts? at h
  rw [hn] at h
  obtain ⟨root, hroot, -⟩ := Option.map_eq_some_iff.mp h
  obtain ⟨old, new, hold, hnew, -⟩ := Entries.find?_modify hroot
  cases hn.symm.trans hold
  cases n with
  | table => rfl
  | scalar | array | tables => cases hnew

theorem TableAt.put (h : d.putTexts? table key texts = some d') {name : String}
    (hname : d.TableAt name) : d'.TableAt name := by
  obtain ⟨⟨style, htable⟩, hothers⟩ := putTexts?_root h
  intro n hn
  by_cases heq : name = table
  · subst heq
    cases htable.symm.trans hn
    rfl
  · exact hname n ((hothers name heq).symm.trans hn)

theorem exists_putSections (hrules : d.TableAt "rules") (hblocklist : d.TableAt "blocklist")
    (c : Rules.Sections) : ∃ d', d.putSections? c = some d' := by
  obtain ⟨d₁, h₁⟩ := exists_putTexts hrules "domains" c.domains
  obtain ⟨d₂, h₂⟩ := exists_putTexts (hrules.put h₁) "suffixes" c.suffixes
  obtain ⟨d₃, h₃⟩ := exists_putTexts ((hblocklist.put h₁).put h₂) "urls" c.sources
  exact ⟨d₃, putSections?_eq_some_iff.mpr ⟨d₁, d₂, h₁, h₂, h₃⟩⟩

/-- What stands under another name stays there. -/
theorem putSections?_others {c : Rules.Sections} (h : d.putSections? c = some d') (name : String)
    (hrules : name ≠ "rules") (hblocklist : name ≠ "blocklist") :
    d'.root.find? name = d.root.find? name := by
  obtain ⟨d₁, d₂, h₁, h₂, h₃⟩ := putSections?_eq_some_iff.mp h
  rw [(putTexts?_root h₃).2 name hblocklist, (putTexts?_root h₂).2 name hrules,
    (putTexts?_root h₁).2 name hrules]

end Document

/-- The root of a sheet has nothing but tables. -/
theorem Sheet.tableAt_document (s : Sheet) (name : String) : s.document.TableAt name := by
  intro n hn
  rw [s.find?_document] at hn
  obtain ⟨t, -, rfl⟩ := Option.map_eq_some_iff.mp hn
  rfl

/-! ## Integers -/

section Integers

variable {p : Int → Bool}

theorem Node.itemsAll_texts (texts : List String) :
    itemsAll p (texts.map fun s => .scalar {} (quote s) (.text s)) = true := by
  induction texts with
  | nil => rfl
  | cons s ss ih => rw [List.map_cons, itemsAll, ih]; rfl

theorem Node.integersAll_ofTexts (texts : List String) : (ofTexts texts).integersAll p = true := by
  rw [ofTexts, integersAll, itemsAll_texts]

theorem Entries.entriesAll_put {name : String} {n : Node} {es : Entries}
    (hn : n.integersAll p = true) (h : Node.entriesAll p es = true) :
    Node.entriesAll p (put name n es) = true := by
  induction es with
  | nil => rw [put, Node.entriesAll, hn]; rfl
  | cons e es ih =>
    obtain ⟨k, old⟩ := e
    rw [Node.entriesAll, Bool.and_eq_true] at h
    rw [put]
    split
    · rw [Node.entriesAll, hn, h.2]; rfl
    · rw [Node.entriesAll, h.1, ih h.2]; rfl

theorem Entries.entriesAll_modify {name : String} {f : Node → Option Node} {es es' : Entries}
    (hf : ∀ old new, f old = some new → old.integersAll p = true → new.integersAll p = true)
    (h : modify? name f es = some es') (hes : Node.entriesAll p es = true) :
    Node.entriesAll p es' = true := by
  induction es generalizing es' with
  | nil => cases h
  | cons e es ih =>
    obtain ⟨k, old⟩ := e
    rw [Node.entriesAll, Bool.and_eq_true] at hes
    rw [modify?] at h
    split at h
    · obtain ⟨new, hnew, rfl⟩ := Option.map_eq_some_iff.mp h
      rw [Node.entriesAll, hf old new hnew hes.1, hes.2]; rfl
    · obtain ⟨rest, hrest, rfl⟩ := Option.map_eq_some_iff.mp h
      rw [Node.entriesAll, hes.1, ih hrest hes.2]; rfl

theorem Node.entriesAll_append (es es' : Entries) :
    entriesAll p (es ++ es') = (entriesAll p es && entriesAll p es') := by
  induction es with
  | nil => rw [List.nil_append, entriesAll, Bool.true_and]
  | cons e es ih => rw [List.cons_append, entriesAll, entriesAll, ih, Bool.and_assoc]

namespace Document

variable {d d' : Document}

/-- Lists of texts bring no integers with them. -/
theorem putTexts?_integers {table key : String} {texts : List String}
    (h : d.putTexts? table key texts = some d') (hd : d.integersAll p = true) :
    d'.integersAll p = true := by
  have htexts := Node.integersAll_ofTexts (p := p) texts
  unfold integersAll at hd ⊢
  unfold putTexts? at h
  split at h
  · cases h
    rw [Node.entriesAll_append, hd, Node.entriesAll, Node.integersAll,
      Entries.entriesAll_put htexts rfl]
    rfl
  · obtain ⟨root, hroot, rfl⟩ := Option.map_eq_some_iff.mp h
    refine Entries.entriesAll_modify (fun old new hnew hold => ?_) hroot hd
    cases old with
    | table style es =>
      cases hnew
      rw [Node.integersAll] at hold ⊢
      exact Entries.entriesAll_put htexts hold
    | scalar | array | tables => cases hnew

theorem putSections?_integers {c : Rules.Sections} (h : d.putSections? c = some d')
    (hd : d.integersAll p = true) : d'.integersAll p = true := by
  obtain ⟨d₁, d₂, h₁, h₂, h₃⟩ := Document.putSections?_eq_some_iff.mp h
  exact putTexts?_integers h₃ (putTexts?_integers h₂ (putTexts?_integers h₁ hd))

end Document

end Integers

end DnsGate.Toml

namespace DnsGate.Settings

open Files (Disk)
open Toml (Node Entries Document)

/-! ## What is decoded -/

section Decoding

variable {α : Type} {es es' : Entries} {place : Nat} {name : String} {dec : Decoder α} {default : α}

theorem get_found {n : Node} (h : es.find? name = some n) :
    (Fields.named es).get place name dec default = dec n := by
  unfold Fields.get Fields.find?
  dsimp only
  rw [h]

theorem get_missing (h : es.find? name = none) :
    (Fields.named es).get place name dec default = some default := by
  unfold Fields.get Fields.find?
  dsimp only
  rw [h]

theorem get_congr (h : es'.find? name = es.find? name) :
    (Fields.named es').get place name dec default = (Fields.named es).get place name dec default := by
  unfold Fields.get Fields.find?
  dsimp only
  rw [h]

theorem texts_ofTexts (texts : List String) : Decoder.texts (.ofTexts texts) = some texts :=
  Toml.mapM_text_textNode {} texts

theorem rules_named (style : Toml.TableStyle) (es : Entries) :
    Decoder.rules (.table style es) =
      ((Fields.named es).get 0 "domains" Decoder.texts []).bind fun domains =>
        ((Fields.named es).get 1 "suffixes" Decoder.texts []).bind fun suffixes =>
          some ⟨domains, suffixes⟩ := rfl

theorem blocking_named (style : Toml.TableStyle) (es : Entries) :
    Decoder.blocking (.table style es) =
      ((Fields.named es).get 0 "enabled" Decoder.boolean ({} : Blocking).enabled).bind fun enabled =>
        ((Fields.named es).get 1 "urls" Decoder.texts []).bind fun sources =>
          ((Fields.named es).get 2 "refresh_hours" (Decoder.integer Width.fits64)
            ({} : Blocking).refreshHours).bind fun refreshHours =>
              some ⟨enabled, sources, refreshHours⟩ := rfl

/-- Two lists that stand in a table are decoded as rules. -/
theorem rules_decoded {style : Toml.TableStyle} {domains suffixes : List String}
    (hdomains : es.find? "domains" = some (.ofTexts domains))
    (hsuffixes : es.find? "suffixes" = some (.ofTexts suffixes)) :
    Decoder.rules (.table style es) = some ⟨domains, suffixes⟩ := by
  rw [rules_named, get_found hdomains, get_found hsuffixes, texts_ofTexts, texts_ofTexts]
  rfl

/-- A list that is put under the sources takes their place. -/
theorem blocking_put {style style' : Toml.TableStyle} {b : Blocking}
    (h : Decoder.blocking (.table style es) = some b) (sources : List String) :
    Decoder.blocking (.table style' (Entries.put "urls" (.ofTexts sources) es)) =
      some { b with sources } := by
  rw [blocking_named] at h
  obtain ⟨enabled, henabled, h⟩ := Option.bind_eq_some_iff.mp h
  obtain ⟨old, -, h⟩ := Option.bind_eq_some_iff.mp h
  obtain ⟨hours, hhours, h⟩ := Option.bind_eq_some_iff.mp h
  cases h
  have hput := Entries.find?_put es "urls" (n := .ofTexts sources)
  rw [blocking_named, get_congr (hput "enabled"), henabled, get_found (hput "urls"), texts_ofTexts,
    get_congr (hput "refresh_hours"), hhours]
  rfl

theorem ofDocument?_eq (d : Document) :
    ofDocument? d =
      ((Fields.named d.root).get 0 "server" Decoder.server {}).bind fun server =>
        ((Fields.named d.root).get 1 "logging" Decoder.logging {}).bind fun logging =>
          ((Fields.named d.root).get 2 "dns" Decoder.forwarding {}).bind fun forwarding =>
            ((Fields.named d.root).get 3 "ipset" Decoder.ipSets {}).bind fun ipSets =>
              ((Fields.named d.root).get 4 "rules" Decoder.rules {}).bind fun rules =>
                ((Fields.named d.root).get 5 "blocklist" Decoder.blocking {}).bind fun blocking =>
                  some ⟨server, logging, forwarding, ipSets, rules, blocking⟩ := rfl

section Put

variable {d d' : Document} {c : Rules.Sections}

/-- With the three lists put in, the rules are decoded as the lists. -/
theorem rules_putSections (h : d.putSections? c = some d') :
    (Fields.named d'.root).get 4 "rules" Decoder.rules {} = some ⟨c.domains, c.suffixes⟩ := by
  obtain ⟨d₁, d₂, h₁, h₂, h₃⟩ := Document.putSections?_eq_some_iff.mp h
  obtain ⟨⟨style, hfind⟩, -⟩ := Document.putTexts?_root h₂
  rw [Document.putTexts?_table h₁, if_pos rfl, Option.getD_some] at hfind
  rw [get_found (((Document.putTexts?_root h₃).2 "rules" (by decide)).trans hfind)]
  refine rules_decoded ?_ ?_
  · rw [Entries.find?_put, if_neg (by decide), Entries.find?_put, if_pos rfl]
  · rw [Entries.find?_put, if_pos rfl]

/-- With the three lists put in, the blocklist has its sources and is otherwise as it was. -/
theorem blocking_putSections {b : Blocking} (h : d.putSections? c = some d')
    (hb : (Fields.named d.root).get 5 "blocklist" Decoder.blocking {} = some b) :
    (Fields.named d'.root).get 5 "blocklist" Decoder.blocking {} =
      some { b with sources := c.sources } := by
  obtain ⟨d₁, d₂, h₁, h₂, h₃⟩ := Document.putSections?_eq_some_iff.mp h
  obtain ⟨⟨style, hfind⟩, -⟩ := Document.putTexts?_root h₃
  have hsame : d₂.root.find? "blocklist" = d.root.find? "blocklist" :=
    ((Document.putTexts?_root h₂).2 "blocklist" (by decide)).trans
      ((Document.putTexts?_root h₁).2 "blocklist" (by decide))
  have htable := Document.tableAt_of_putTexts h₃
  rw [get_found hfind, Document.table?, hsame]
  cases hd : d.root.find? "blocklist" with
  | none =>
    rw [get_missing hd] at hb
    cases hb
    have hempty : Decoder.blocking (.table {} []) = some {} := rfl
    exact blocking_put hempty c.sources
  | some n =>
    rw [get_found hd] at hb
    have hn := htable n (hsame.trans hd)
    cases n with
    | table style' es => exact blocking_put hb c.sources
    | scalar | array | tables => cases hn

/-- With lists put into their document, settings have these lists and are otherwise as they were. -/
theorem ofDocument?_putSections {s : Settings} (h : d.putSections? c = some d')
    (hs : ofDocument? d = some s) : ofDocument? d' = some (s.withSections c) := by
  have hserver := Document.putSections?_others h "server" (by decide) (by decide)
  have hlogging := Document.putSections?_others h "logging" (by decide) (by decide)
  have hforwarding := Document.putSections?_others h "dns" (by decide) (by decide)
  have hipSets := Document.putSections?_others h "ipset" (by decide) (by decide)
  rw [ofDocument?_eq] at hs ⊢
  obtain ⟨server, hs₁, hs⟩ := Option.bind_eq_some_iff.mp hs
  obtain ⟨logging, hs₂, hs⟩ := Option.bind_eq_some_iff.mp hs
  obtain ⟨forwarding, hs₃, hs⟩ := Option.bind_eq_some_iff.mp hs
  obtain ⟨ipSets, hs₄, hs⟩ := Option.bind_eq_some_iff.mp hs
  obtain ⟨rules, -, hs⟩ := Option.bind_eq_some_iff.mp hs
  obtain ⟨blocking, hblocking, hs⟩ := Option.bind_eq_some_iff.mp hs
  cases hs
  rw [get_congr hserver, hs₁, get_congr hlogging, hs₂, get_congr hforwarding, hs₃,
    get_congr hipSets, hs₄, rules_putSections h, blocking_putSections h hblocking]
  rfl

end Put

end Decoding

/-! ## Saving and loading -/

section Saving

variable {k : Keeper} {disk : Disk} {path content text : String} {c : Rules.Sections}
  {s : Settings}

/-- What stands under the rules and under the blocklist, if anything, is a table. -/
def SectionTables (content : String) : Prop :=
  ∀ d, Document.parse? content = some d → d.TableAt "rules" ∧ d.TableAt "blocklist"

/-- Text that is accepted when it is loaded has no integers for which it is refused when it is
saved. -/
def SameIntegers (content : String) : Prop :=
  ∀ d, Document.parse? content = some d →
    d.integersAll Width.fits128 = true → d.integersAll Width.fits64 = true

/-- Once the lists are put into the document of the text, it is printed as text that says the
same. -/
def Reread (content : String) (c : Rules.Sections) : Prop :=
  ∀ d d', Document.parse? content = some d → d.putSections? c = some d' → d'.Faithful

theorem parse?_eq_some_iff : Settings.parse? content = some s ↔ ∃ d,
    Document.parse? content = some d ∧ d.integersAll Width.fits128 = true ∧
      ofDocument? d = some s := by
  unfold Settings.parse?
  cases Document.parse? content <;> simp

/-- A sheet with the lists put in is read again. -/
theorem faithful_of_put {d d' : Document} (h : Toml.IsSheet content ∨ Reread content c)
    (hd : Document.parse? content = some d) (hput : d.putSections? c = some d') : d'.Faithful := by
  rcases h with ⟨sheet, hlegible, hsheet⟩ | hreread
  · cases hd.symm.trans hsheet
    cases hput.symm.trans (Toml.Sheet.putSections?_document c sheet)
    exact (hlegible.putSections c).faithful
  · exact hreread d d' hd hput

/-- The settings of a file that is there are those that its text holds. -/
theorem load_eq_ok_iff (h : disk.readText path = .ok text) :
    load disk path {} = .ok s ↔ Settings.parse? text = some s := by
  obtain ⟨bytes, hfind, -⟩ := Files.Disk.readText_eq_ok_iff.mp h
  have hsame (s : Settings) : s.override {} = s := rfl
  unfold load
  simp only [hfind, h, hsame]
  cases Settings.parse? text <;> simp

/-- A list is put into the document of a file wherever one may be. -/
theorem mergeSections_ok {d d' : Document} (hd : Document.parse? content = some d)
    (hfits : d.integersAll Width.fits64 = true) (h : d.putSections? c = some d') :
    mergeSections content c = .ok d'.text := by
  obtain ⟨d₁, d₂, h₁, h₂, h₃⟩ := Document.putSections?_eq_some_iff.mp h
  unfold mergeSections
  rw [hd, Option.filter_some, if_pos hfits]
  dsimp only
  rw [putList_eq_ok_iff.mpr h₁]
  show (putList "rules" "suffixes" c.suffixes d₁ >>= _) = _
  rw [putList_eq_ok_iff.mpr h₂]
  show (putList "blocklist" "urls" c.sources d₂ >>= _) = _
  rw [putList_eq_ok_iff.mpr h₃]
  rfl

/-- What was written beside a file takes its place. -/
theorem Keeper.replace_ok {old : Bytes} (hfile : disk.find? k.path = some (.file old))
    (hwrite : disk.Writable k.temporary) (text : String) :
    ∃ disk', k.replace disk text = (.ok (), disk') ∧ disk'.readText k.path = .ok text := by
  obtain ⟨written, hwritten⟩ := hwrite (Utf8.encode text)
  have hfind := Disk.find?_write hwritten
  have hbeside : written.find? k.temporary = some (.file (Utf8.encode text)) := by
    rw [hfind, if_pos rfl]
  have hold : written.find? k.path = some (.file old) := by
    rw [hfind, if_neg (Program.System.temporary_ne_path k), hfile]
  obtain ⟨moved, hmoved⟩ := Disk.exists_rename hbeside hold
  obtain ⟨content, hcontent, hmove⟩ := Disk.find?_rename hmoved
  cases hbeside.symm.trans hcontent
  refine ⟨moved, ?_, Disk.readText_encode ?_⟩
  · simp only [replace, hwritten, hmoved]
  · rw [hmove, if_neg (Program.System.temporary_ne_path k), if_pos rfl]

/-- Saving to a file that was loaded, whose rules and blocklist are tables, succeeds if a file can
be written beside it.  The file is then loaded as the same settings with the lists that were saved.
Loading and saving must accept the same integers, and what is printed must say what its document
says; of a file with a sheet the latter need not be asked. -/
theorem save_round_trips (hread : disk.readText k.path = .ok content)
    (hload : load disk k.path {} = .ok s) (hwrite : disk.Writable k.temporary)
    (htables : SectionTables content) (hintegers : SameIntegers content)
    (hprinted : Toml.IsSheet content ∨ Reread content c) :
    ∃ disk', k.save disk c = (.ok (), disk') ∧ load disk' k.path {} = .ok (s.withSections c) := by
  obtain ⟨bytes, hfile, -⟩ := Disk.readText_eq_ok_iff.mp hread
  obtain ⟨d, hd, hfits, hs⟩ := parse?_eq_some_iff.mp ((load_eq_ok_iff hread).mp hload)
  obtain ⟨hrules, hblocklist⟩ := htables d hd
  obtain ⟨d', hput⟩ := Document.exists_putSections hrules hblocklist c
  -- the new text is composed and takes the place of the old one
  have hcontent : k.content disk c = .ok d'.text := by
    unfold Keeper.content
    rw [hread]
    exact mergeSections_ok hd (hintegers d hd hfits) hput
  obtain ⟨disk', hreplace, hread'⟩ := k.replace_ok hfile hwrite d'.text
  refine ⟨disk', ?_, (load_eq_ok_iff hread').mpr ?_⟩
  · unfold Keeper.save
    rw [hcontent]
    exact hreplace
  -- it says what the document said into which the lists were put
  · obtain ⟨read, hparse, halike⟩ := faithful_of_put hprinted hd hput
    refine parse?_eq_some_iff.mpr ⟨read, hparse, ?_, ?_⟩
    · rw [halike.integers]
      exact Document.putSections?_integers hput hfits
    · rw [ofDocument?_alike halike]
      exact ofDocument?_putSections hput hs

end Saving

/-! ## Files that are saved, and one that cannot be -/

open Program.System (defaultsKeeper)

/-- A disk with a settings file. -/
def diskWith (text : String) : Disk := ⟨.insert .empty "settings.toml" (.file (Utf8.encode text))⟩

theorem save_round_trips_defaults :
    load (diskWith ({} : Settings).render) "settings.toml" {} = .ok {} ∧
      ∃ disk', defaultsKeeper.save (diskWith ({} : Settings).render)
          ⟨["a.test"], [".corp"], ["/hosts"]⟩ = (.ok (), disk') ∧
        load disk' "settings.toml" {} =
          .ok { ({} : Settings) with
            rules := ⟨["a.test"], [".corp"]⟩
            blocking := { ({} : Blocking) with sources := ["/hosts"] } } := by
  have hread : (diskWith ({} : Settings).render).readText "settings.toml" =
      .ok ({} : Settings).render := Disk.readText_encode rfl
  have hlegible := legible_sheet {}
  have halike := (sheet {}).alike_spelled
  have hparse : Document.parse? ({} : Settings).render = some (sheet {}).spelled.document := by
    rw [render_eq_text]
    exact hlegible.parse?
  -- decided on the sheet, since its text takes long to read
  have hfits : ∀ fits ∈ [Width.fits64, Width.fits128],
      (sheet {}).spelled.document.integersAll fits = true := by
    simp only [halike.integers]
    decide +kernel
  have hload : load (diskWith ({} : Settings).render) "settings.toml" {} = .ok {} := by
    refine (load_eq_ok_iff hread).mpr (parse?_eq_some_iff.mpr ⟨_, hparse, hfits _ (by simp), ?_⟩)
    rw [ofDocument?_alike halike]
    decide +kernel
  refine ⟨hload, save_round_trips (k := defaultsKeeper) hread hload (fun _ => ⟨_, rfl⟩) ?_ ?_
    (Or.inl ⟨_, hlegible.spelled, hparse⟩)⟩
  · intro d hd
    cases hparse.symm.trans hd
    exact ⟨Toml.Sheet.tableAt_document _ _, Toml.Sheet.tableAt_document _ _⟩
  · intro d hd _
    cases hparse.symm.trans hd
    exact hfits _ (by simp)

/-- A section that is given as a list of its fields is loaded, but cannot be saved. -/
theorem placed_not_saved :
    load (diskWith "rules = []\n") "settings.toml" {} = .ok {} ∧
      (diskWith "rules = []\n").Writable defaultsKeeper.temporary ∧
      (defaultsKeeper.save (diskWith "rules = []\n") ⟨["a.test"], [], []⟩).1 =
        .error (.edit "rules") := by
  have hread : (diskWith "rules = []\n").readText "settings.toml" = .ok "rules = []\n" :=
    Disk.readText_encode rfl
  refine ⟨(load_eq_ok_iff hread).mpr (by decide +kernel), fun _ => ⟨_, rfl⟩, ?_⟩
  have hcontent : defaultsKeeper.content (diskWith "rules = []\n") ⟨["a.test"], [], []⟩ =
      .error (.edit "rules") := by
    unfold Keeper.content
    rw [show defaultsKeeper.path = "settings.toml" from rfl, hread]
    show mergeSections "rules = []\n" ⟨["a.test"], [], []⟩ = _
    decide +kernel
  unfold Keeper.save
  rw [hcontent]

end DnsGate.Settings
