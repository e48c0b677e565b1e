import DnsGate.Proofs.Editing
import DnsGate.Proofs.Overlap
import DnsGate.Proofs.SavedLists

/-!
No change is lost on disk.  A save may write the changes of other requests with its own, may be
overtaken by changes after it has taken the sections, and may fail; some requests do not save at
all.  Yet unless a request that has changed the sections has still to take them for its save, the
save that has the lock has taken the current sections, or the file holds them (`UpToDate`).  Main
statement: when no request is in flight and the last save to release the lock succeeded, the file
holds the current sections (`lists_on_disk`).
-/

namespace DnsGate

/-- The text of the document is read as a document with the same lists. -/
def Toml.Document.ReadsBack (d : Toml.Document) : Prop :=
  ∃ read, Toml.Document.parse? d.text = some read ∧
    ∀ table key, read.texts? table key = d.texts? table key

namespace Program

open Files (Disk)
open Settings (Keeper Failure)

/-! ## Requests that do not save -/

/-- A request that does not save leaves the sections as they are. -/
theorem change_sections {r : Admin.Request} {a : Admin.State} (h : (r.change a).2 = false) :
    (r.change a).1.sections = a.sections := by
  cases r with
  | edit e kind entries =>
    have hunchanged : (Admin.editRules e kind entries a).1.changed = 0 :=
      Nat.eq_zero_of_not_pos (of_decide_eq_false h)
    exact congrArg Admin.State.sections (Admin.editRules_unchanged e kind entries hunchanged)
  | refresh =>
    show ((Admin.requestRefresh? a).getD a).sections = a.sections
    unfold Admin.requestRefresh?
    cases a.live.blocklist <;> rfl
  | rules kind => rfl
  | status => rfl
  | setSources sources => cases h
  | save => cases h

/-! ## The invariant -/

/-- The request has changed the sections or may have, and has still to take them for its save. -/
def Phase.Pending : Phase → Prop
  | .listed _ | .handed | .unsaved => True
  | .arrived _ | .saving | .done => False

/-- If text stands at a path, it is that of a sheet. -/
def SheetAt (disk : Disk) (path : String) : Prop :=
  ∀ text, disk.readText path = .ok text → Toml.IsSheet text

/-- The text is that of a document that holds sections.  If no files but sheets were met, it is read
as a sheet that holds them. -/
structure Holds (plain : Prop) (text : String) (c : Rules.Sections) : Prop where
  document : ∃ d : Toml.Document, text = d.text ∧ d.sections? = some c
  sheet : plain → Toml.SheetHolds text c

/-- The file holds sections. -/
def FileHolds (plain : Prop) (disk : Disk) (path : String) (c : Rules.Sections) : Prop :=
  ∃ text, disk.readText path = .ok text ∧ Holds plain text c

/-- What a save has composed holds the sections that it has taken, and what it has written stands
beside the file. -/
def Stage.Sound (k : Keeper) (plain : Prop) (disk : Disk) : Stage → Prop
  | .composed c text => Holds plain text c
  | .written c text =>
    Holds plain text c ∧ disk.find? k.temporary = some (.file (Utf8.encode text))
  | .locked | .taken _ | .ended _ => True

/-- The save that has the lock has taken the current sections or will take them, or the file holds
them unless the last save failed. -/
def UpToDate (k : Keeper) (plain : Prop) (sections : Rules.Sections) (disk : Disk)
    (last : Option (Except Failure Unit)) : Option Save → Prop
  | none => last = some (.ok ()) → FileHolds plain disk k.path sections
  | some ⟨_, .locked⟩ => True
  | some ⟨_, .taken c⟩ => c = sections
  | some ⟨_, .composed c _⟩ => c = sections
  | some ⟨_, .written c _⟩ => c = sections
  | some ⟨_, .ended result⟩ => result = .ok () → FileHolds plain disk k.path sections

namespace System

structure Inv (k : Keeper) (plain : Prop) (s : System) : Prop where
  sound : ∀ save, s.save = some save → save.stage.Sound k plain s.disk
  current : (∃ p ∈ s.phases, p.Pending) ∨ UpToDate k plain s.admin.sections s.disk s.last s.save
  sheet : plain → SheetAt s.disk k.path

theorem inv_start (k : Keeper) (admin : Admin.State) (disk : Disk)
    (requests : List Admin.Request) : Inv k (SheetAt disk k.path) (start admin disk requests) where
  sound := by
    intro save h
    cases h
  current := Or.inr (fun h => by cases h)
  sheet := id

section Phases

variable {phases : List Phase} {i : Nat} {old new : Phase}

theorem pending_set_self (h : phases[i]? = some old) (hnew : new.Pending) :
    ∃ p ∈ phases.set i new, p.Pending :=
  ⟨new, List.mem_set (List.getElem?_eq_some_iff.mp h).1 new, hnew⟩

/-- A request that is not pending is in the way of none that is. -/
theorem pending_set (h : phases[i]? = some old) (hold : ¬old.Pending)
    (hpending : ∃ p ∈ phases, p.Pending) : ∃ p ∈ phases.set i new, p.Pending := by
  obtain ⟨p, hp, hpending⟩ := hpending
  obtain ⟨j, hj⟩ := List.mem_iff_getElem?.mp hp
  have hne : i ≠ j := by
    rintro rfl
    cases h.symm.trans hj
    exact hold hpending
  exact ⟨p, List.mem_iff_getElem?.mpr ⟨j, (List.getElem?_set_ne hne).trans hj⟩, hpending⟩

end Phases

variable {k : Keeper} {plain : Prop} {s s' : System}

/-- The save that has the lock goes on. -/
theorem Inv.advance (h : s.Inv k plain) {i : Nat} {old new : Stage} {disk : Disk}
    (hsave : s.save = some ⟨i, old⟩) (hsound : new.Sound k plain disk)
    (hcurrent : UpToDate k plain s.admin.sections s.disk s.last (some ⟨i, old⟩) →
      UpToDate k plain s.admin.sections disk s.last (some ⟨i, new⟩))
    (hsheet : plain → SheetAt disk k.path) :
    Inv k plain { s with disk, save := some ⟨i, new⟩ } where
  sound := by
    intro save heq
    cases heq
    exact hsound
  current := by
    have hold := h.current
    rw [hsave] at hold
    exact hold.imp_right hcurrent
  sheet := hsheet

/-- The file is as it was. -/
theorem Inv.sheetAt (h : s.Inv k plain) {disk : Disk}
    (hdisk : disk.find? k.path = s.disk.find? k.path) (hplain : plain) : SheetAt disk k.path :=
  fun text htext => h.sheet hplain text ((Disk.readText_ok_congr hdisk).mp htext)

theorem temporary_ne_path (k : Keeper) : k.path ≠ k.temporary := by
  intro h
  have hlength := congrArg String.length h
  simp [Keeper.temporary] at hlength

/-- What stands beside the file takes its place. -/
theorem fileHolds_move {disk moved : Disk} {c : Rules.Sections} {text : String}
    (hbeside : disk.find? k.temporary = some (.file (Utf8.encode text))) (htext : Holds plain text c)
    (hmoved : disk.rename k.temporary k.path = .ok moved) : FileHolds plain moved k.path c := by
  obtain ⟨content, hcontent, hfind⟩ := Disk.find?_rename hmoved
  cases hbeside.symm.trans hcontent
  have hpath := hfind k.path
  rw [if_neg (temporary_ne_path k), if_pos rfl] at hpath
  exact ⟨text, Disk.readText_encode hpath, htext⟩

theorem FileHolds.sheetAt {disk : Disk} {path : String} {c : Rules.Sections}
    (h : FileHolds plain disk path c) (hplain : plain) : SheetAt disk path := by
  obtain ⟨text, hread, hholds⟩ := h
  obtain ⟨sheet, hlegible, hparse, -⟩ := hholds.sheet hplain
  intro other hother
  cases hread.symm.trans hother
  exact ⟨sheet, hlegible, hparse⟩

theorem Inv.step (h : s.Inv k plain) (ho : s.Owned) (hs : Step k s s') : s'.Inv k plain := by
  cases hs with
  | @change i r hi hr =>
    refine ⟨h.sound, ?_, h.sheet⟩
    cases hsaves : (r.change s.admin).2 with
    | true => exact Or.inl (pending_set_self hi trivial)
    | false =>
      dsimp only
      rw [change_sections hsaves]
      exact h.current.imp_left (pending_set hi id)
  | @list i sources hi => exact ⟨h.sound, Or.inl (pending_set_self hi trivial), h.sheet⟩
  | @hand i sources hi => exact ⟨h.sound, Or.inl (pending_set_self hi trivial), h.sheet⟩
  | @ask i hi => exact ⟨h.sound, Or.inl (pending_set_self hi trivial), h.sheet⟩
  | @lock i hi hfree =>
    -- this save will take the sections as they are then, whoever else has changed them
    refine ⟨?_, Or.inr trivial, h.sheet⟩
    intro save hsave
    cases hsave
    trivial
  | @take i hsave => exact h.advance hsave trivial (fun _ => rfl) h.sheet
  | @compose i c text hsave htext =>
    have hholds : Holds plain text c := ⟨Keeper.content_holds htext,
      fun hplain => Keeper.content_reads (h.sheet hplain) htext⟩
    exact h.advance hsave hholds id h.sheet
  | @write i c text disk hsave hdisk =>
    have hfind := Disk.find?_write hdisk
    have hbeside := hfind k.temporary
    have hpath := hfind k.path
    rw [if_pos rfl] at hbeside
    rw [if_neg (temporary_ne_path k)] at hpath
    exact h.advance hsave ⟨h.sound _ hsave, hbeside⟩ id (h.sheetAt hpath)
  | @move i c text disk hsave hdisk =>
    obtain ⟨htext, hbeside⟩ := h.sound _ hsave
    have hfile := fileHolds_move hbeside htext hdisk
    exact h.advance hsave trivial (fun hc _ => hc ▸ hfile) (FileHolds.sheetAt hfile)
  | @fail i stage disk hsave hstage e hdisk =>
    -- whatever has failed, only what stands beside the file may have changed
    exact h.advance hsave trivial (fun _ hok => by cases hok)
      (h.sheetAt (hdisk k.path (temporary_ne_path k)))
  | @release i result hsave =>
    -- the request that saves is no longer pending, so one that is has yet to save
    have hcurrent := h.current
    rw [hsave] at hcurrent
    refine ⟨?_, hcurrent.imp (pending_set (ho _ hsave) id) ?_, h.sheet⟩
    · intro save heq
      cases heq
    · intro hfile hlast
      exact hfile (Option.some.inj hlast)

theorem Inv.steps (h : s.Inv k plain) (ho : s.Owned) (hs : Steps k s s') : s'.Inv k plain := by
  induction hs with
  | refl => exact h
  | tail hsteps hstep ih => exact ih.step (ho.steps hsteps) hstep

/-! ## Nothing in flight -/

/-- No request is in flight: those that have come have not started or are done. -/
def Idle (s : System) : Prop := ∀ p ∈ s.phases, (∃ r, p = .arrived r) ∨ p = .done

theorem Inv.fileHolds (h : s.Inv k plain) (ho : s.Owned) (hidle : s.Idle)
    (hlast : s.last = some (.ok ())) : FileHolds plain s.disk k.path s.admin.sections := by
  have hsettled {p : Phase} (hp : p ∈ s.phases) : ¬p.Pending ∧ p ≠ .saving := by
    rcases hidle p hp with ⟨r, rfl⟩ | rfl
    · exact ⟨id, Phase.noConfusion⟩
    · exact ⟨id, Phase.noConfusion⟩
  have hfree : s.save = none := by
    cases hsave : s.save with
    | none => rfl
    | some save => exact absurd rfl (hsettled (List.mem_of_getElem? (ho _ hsave))).2
  rcases h.current with ⟨p, hp, hpending⟩ | hcurrent
  · exact absurd hpending (hsettled hp).1
  · rw [hfree] at hcurrent
    exact hcurrent hlast

/-- No change is lost on disk.  However the steps of any requests come that edit rules, replace
sources or save, among others, and whichever saves fail: when no request is in flight and the last
save to release the lock succeeded, the file is the text of a document whose lists are those of the
current sections.  Reading the file gives these lists, if none or a sheet stood there at the start,
or else if reading the document gives what was written. -/
theorem lists_on_disk {admin : Admin.State} {disk : Disk} {requests : List Admin.Request}
    (hs : Steps k (start admin disk requests) s) (hidle : s.Idle) (hlast : s.last = some (.ok ())) :
    ∃ d : Toml.Document, s.disk.readText k.path = .ok d.text ∧
      d.sections? = some s.admin.sections ∧
      (SheetAt disk k.path ∨ d.ReadsBack →
        (Toml.Document.parse? d.text).bind (·.sections?) = some s.admin.sections) := by
  have howned := owned_start admin disk requests
  obtain ⟨text, hread, ⟨d, rfl, hd⟩, hsheet⟩ :=
    ((inv_start k admin disk requests).steps howned hs).fileHolds (howned.steps hs) hidle hlast
  refine ⟨d, hread, hd, ?_⟩
  rintro (hplain | ⟨read, hparse, htexts⟩)
  · obtain ⟨sheet, -, hparse, hholds⟩ := hsheet hplain
    rw [hparse]
    exact hholds
  · rw [hparse, Option.bind_some, ← hd]
    simp only [Toml.Document.sections?, htexts]

/-! ## A save that fails, and one that makes up for it -/

/-- Where settings are saved that are the defaults. -/
def defaultsKeeper : Keeper := ⟨"settings.toml", {}⟩

/-- What becomes of two edits when the save of the first one fails.  The second one is made before
that, and its save writes both. -/
def bothSaved : System where
  admin := ⟨⟨⟨[".corp", "a.test"], by decide⟩, none⟩, ⟨["a.test"], [".corp"], []⟩⟩
  disk := (defaultsKeeper.save {} ⟨["a.test"], [".corp"], []⟩).2
  phases := [.done, .done]
  last := some (.ok ())

theorem lists_on_disk_bothSaved :
    Steps defaultsKeeper (start ⟨⟨.empty, none⟩, {}⟩ {}
      [.edit .add .domain ["a.test"], .edit .add .suffix ["corp"]]) bothSaved ∧
      bothSaved.Idle ∧ SheetAt {} "settings.toml" ∧
      ∃ d : Toml.Document, bothSaved.disk.readText "settings.toml" = .ok d.text ∧
        d.sections? = some ⟨["a.test"], [".corp"], []⟩ ∧
        (Toml.Document.parse? d.text).bind (·.sections?) = some ⟨["a.test"], [".corp"], []⟩ := by
  have hsteps : Steps defaultsKeeper (start ⟨⟨.empty, none⟩, {}⟩ {}
      [.edit .add .domain ["a.test"], .edit .add .suffix ["corp"]]) bothSaved := by
    refine .head (.change (i := 0) rfl fun _ => Admin.Request.noConfusion) ?_
    refine .head (.lock (i := 0) rfl rfl) ?_
    refine .head (.change (i := 1) rfl fun _ => Admin.Request.noConfusion) ?_
    refine .head (.fail (i := 0) rfl (fun _ => Stage.noConfusion)
      (.write "settings.toml.tmp" .notFound) fun _ _ => rfl) ?_
    refine .head (.release (i := 0) rfl) ?_
    exact save_steps (i := 1) rfl rfl
  have hidle : bothSaved.Idle := by
    intro p hp
    exact Or.inr (List.eq_of_mem_replicate (n := 2) hp)
  have hplain : SheetAt {} "settings.toml" := by
    intro text htext
    cases htext
  obtain ⟨d, hread, hd, hparse⟩ := lists_on_disk hsteps hidle rfl
  exact ⟨hsteps, hidle, hplain, d, hread, hd, hparse (Or.inl hplain)⟩

end System

end Program

end DnsGate
