import Mathlib.Logic.Relation
import DnsGate.Program.App

/-!
Requests of the management interface in steps that may come in any order.  A request that edits
rules changes the live rules and the sections in one step.  One that replaces the sources changes
the sections first and the blocklist then, each in a step of its own.  To save, a request takes the
lock, then the sections as they are, then composes the new content from the file, writes it beside
the file and moves it there, and releases the lock; this may fail after every step, and may then
leave anything at the path beside the file.

A request that nothing comes between is `Request.execute` (`execute_steps`).
-/

namespace DnsGate.Program

open Admin (Request)
open Files (Disk)
open Settings (Keeper Failure)

/-! ## The parties -/

/-- Where a request stands between two of its steps. -/
inductive Phase where
  | arrived (r : Request)
  /-- The sources stand in the sections; the blocklist is still to get them. -/
  | listed (sources : List String)
  /-- The blocklist has them; a refresh is still to be asked for. -/
  | handed
  /-- The change is made, and the settings are still to be saved. -/
  | unsaved
  | saving
  | done
deriving DecidableEq, Repr

/-- Where the save stands that has the lock. -/
inductive Stage where
  | locked
  /-- The sections are taken. -/
  | taken (c : Rules.Sections)
  /-- The new content is composed. -/
  | composed (c : Rules.Sections) (text : String)
  /-- The new content stands beside the file. -/
  | written (c : Rules.Sections) (text : String)
  | ended (result : Except Failure Unit)

/-- The save that has the lock, and the request that it belongs to. -/
structure Save where
  request : Nat
  stage : Stage

/-- What requests share, where each of them stands, the save that has the lock, and what came of the
last save to release it. -/
structure System where
  admin : Admin.State
  disk : Disk
  phases : List Phase
  save : Option Save := none
  last : Option (Except Failure Unit) := none

/-- The state with another manager of the blocklist, if there is one. -/
def mapBlocklist (f : Blocklist.Manager → Blocklist.Manager) (a : Admin.State) : Admin.State :=
  { a with live := { a.live with blocklist := a.live.blocklist.map f } }

namespace System

/-- Requests that have just arrived. -/
def start (admin : Admin.State) (disk : Disk) (requests : List Request) : System :=
  { admin, disk, phases := requests.map .arrived }

/-! ## Steps -/

inductive Step (k : Keeper) : System → System → Prop where
  | change {s : System} {i : Nat} {r : Request} (h : s.phases[i]? = some (.arrived r))
      (hr : ∀ sources, r ≠ .setSources sources) :
      Step k s { s with
        admin := (r.change s.admin).1
        phases := s.phases.set i (if (r.change s.admin).2 then .unsaved else .done) }
  | list {s : System} {i : Nat} {sources : List String}
      (h : s.phases[i]? = some (.arrived (.setSources sources))) :
      Step k s { s with
        admin := { s.admin with
          sections := s.admin.sections.setSources (Admin.cleanSources sources) }
        phases := s.phases.set i (.listed (Admin.cleanSources sources)) }
  | hand {s : System} {i : Nat} {sources : List String}
      (h : s.phases[i]? = some (.listed sources)) :
      Step k s { s with
        admin := mapBlocklist (·.setSources sources) s.admin
        phases := s.phases.set i .handed }
  | ask {s : System} {i : Nat} (h : s.phases[i]? = some .handed) :
      Step k s { s with
        admin := mapBlocklist (·.request) s.admin
        phases := s.phases.set i .unsaved }
  | lock {s : System} {i : Nat} (h : s.phases[i]? = some .unsaved) (hfree : s.save = none) :
      Step k s { s with save := some ⟨i, .locked⟩, phases := s.phases.set i .saving }
  | take {s : System} {i : Nat} (h : s.save = some ⟨i, .locked⟩) :
      Step k s { s with save := some ⟨i, .taken s.admin.sections⟩ }
  | compose {s : System} {i : Nat} {c : Rules.Sections} {text : String}
      (h : s.save = some ⟨i, .taken c⟩) (htext : k.content s.disk c = .ok text) :
      Step k s { s with save := some ⟨i, .composed c text⟩ }
  | write {s : System} {i : Nat} {c : Rules.Sections} {text : String} {disk : Disk}
      (h : s.save = some ⟨i, .composed c text⟩)
      (hdisk : s.disk.write k.temporary (Utf8.encode text) = .ok disk) :
      Step k s { s with disk, save := some ⟨i, .written c text⟩ }
  | move {s : System} {i : Nat} {c : Rules.Sections} {text : String} {disk : Disk}
      (h : s.save = some ⟨i, .written c text⟩)
      (hdisk : s.disk.rename k.temporary k.path = .ok disk) :
      Step k s { s with disk, save := some ⟨i, .ended (.ok ())⟩ }
  | fail {s : System} {i : Nat} {stage : Stage} {disk : Disk} (h : s.save = some ⟨i, stage⟩)
      (hstage : ∀ result, stage ≠ .ended result) (e : Failure)
      (hdisk : ∀ path, path ≠ k.temporary → disk.find? path = s.disk.find? path) :
      Step k s { s with disk, save := some ⟨i, .ended (.error e)⟩ }
  | release {s : System} {i : Nat} {result : Except Failure Unit}
      (h : s.save = some ⟨i, .ended result⟩) :
      Step k s { s with save := none, last := some result, phases := s.phases.set i .done }

/-- Some steps, one after the other. -/
abbrev Steps (k : Keeper) : System → System → Prop := Relation.ReflTransGen (Step k)

/-! ## The lock -/

/-- The save that has the lock belongs to a request that is saving. -/
def Owned (s : System) : Prop :=
  ∀ save, s.save = some save → s.phases[save.request]? = some .saving

section Lock

variable {k : Keeper} {s s' : System} {i : Nat} {old new : Phase}

/-- A request that is not saving goes on. -/
theorem Owned.goesOn (h : s.Owned) (hi : s.phases[i]? = some old) (hold : old ≠ .saving)
    (hsave : s'.save = s.save) (hphases : s'.phases = s.phases.set i new) : s'.Owned := by
  intro save heq
  have howner := h save (hsave.symm.trans heq)
  have hne : i ≠ save.request := by
    rintro rfl
    exact hold (Option.some.inj (hi.symm.trans howner))
  rw [hphases, List.getElem?_set_ne hne]
  exact howner

/-- The save that has the lock goes on. -/
theorem Owned.advance (h : s.Owned) {stage next : Stage} (hsave : s.save = some ⟨i, stage⟩)
    (hnext : s'.save = some ⟨i, next⟩) (hphases : s'.phases = s.phases) : s'.Owned := by
  intro save heq
  cases hnext.symm.trans heq
  rw [hphases]
  exact h ⟨i, stage⟩ hsave

theorem Owned.step (h : s.Owned) (hs : Step k s s') : s'.Owned := by
  cases hs with
  | change hi hr => exact h.goesOn hi Phase.noConfusion rfl rfl
  | list hi => exact h.goesOn hi Phase.noConfusion rfl rfl
  | hand hi => exact h.goesOn hi Phase.noConfusion rfl rfl
  | ask hi => exact h.goesOn hi Phase.noConfusion rfl rfl
  | lock hi hfree =>
    intro save heq
    cases heq
    exact List.getElem?_set_self (List.getElem?_eq_some_iff.mp hi).1
  | take hsave => exact h.advance hsave rfl rfl
  | compose hsave htext => exact h.advance hsave rfl rfl
  | write hsave hdisk => exact h.advance hsave rfl rfl
  | move hsave hdisk => exact h.advance hsave rfl rfl
  | fail hsave hstage e hdisk => exact h.advance hsave rfl rfl
  | release hsave =>
    intro save heq
    cases heq

theorem owned_start (admin : Admin.State) (disk : Disk) (requests : List Request) :
    (start admin disk requests).Owned := by
  intro save heq
  cases heq

theorem Owned.steps (h : s.Owned) (hs : Steps k s s') : s'.Owned := by
  induction hs with
  | refl => exact h
  | tail _ hstep ih => exact ih.step hstep

end Lock

/-! ## Requests that nothing comes between -/

section Uninterrupted

variable {k : Keeper} {s : System} {i : Nat}

/-- What a save does while it has the lock. -/
theorem locked_steps (h : s.save = some ⟨i, .locked⟩) :
    Steps k s { s with
      disk := (k.save s.disk s.admin.sections).2
      save := some ⟨i, .ended (k.save s.disk s.admin.sections).1⟩ } := by
  refine .head (.take h) ?_
  unfold Keeper.save
  cases htext : k.content s.disk s.admin.sections with
  | error e => exact .single (.fail rfl (fun _ => Stage.noConfusion) e fun _ _ => rfl)
  | ok text =>
    refine .head (.compose rfl htext) ?_
    dsimp only
    unfold Keeper.replace
    cases hwritten : s.disk.write k.temporary (Utf8.encode text) with
    | error cause => exact .single (.fail rfl (fun _ => Stage.noConfusion) _ fun _ _ => rfl)
    | ok written =>
      refine .head (.write rfl hwritten) ?_
      dsimp only
      cases hmoved : written.rename k.temporary k.path with
      | error cause => exact .single (.fail rfl (fun _ => Stage.noConfusion) _ fun _ _ => rfl)
      | ok moved => exact .single (.move rfl hmoved)

theorem save_steps (h : s.phases[i]? = some .unsaved) (hfree : s.save = none) :
    Steps k s { s with
      disk := (k.save s.disk s.admin.sections).2
      phases := s.phases.set i .done
      last := some (k.save s.disk s.admin.sections).1 } := by
  have hlocked := locked_steps (k := k) (i := i)
    (s := { s with save := some ⟨i, .locked⟩, phases := s.phases.set i .saving }) rfl
  have hrelease := Step.release (k := k) (i := i) (s := { s with
    disk := (k.save s.disk s.admin.sections).2
    phases := s.phases.set i .saving
    save := some ⟨i, .ended (k.save s.disk s.admin.sections).1⟩ }) rfl
  rw [List.set_set, ← hfree] at hrelease
  exact .head (.lock h hfree) (.tail hlocked hrelease)

/-- What a request to replace the sources changes, one step after the other. -/
theorem updateSources_eq (sources : List String) (a : Admin.State) :
    mapBlocklist (·.request) (mapBlocklist (·.setSources (Admin.cleanSources sources))
      { a with sections := a.sections.setSources (Admin.cleanSources sources) }) =
      Admin.updateSources sources a := by
  unfold mapBlocklist Admin.updateSources
  rw [Option.map_map]
  rfl

/-- The sources are replaced in the sections, then in the blocklist, which is then asked for a
refresh. -/
theorem updateSources_steps {sources : List String}
    (h : s.phases[i]? = some (.arrived (.setSources sources))) :
    Steps k s { s with
      admin := Admin.updateSources sources s.admin
      phases := s.phases.set i .unsaved } := by
  have hi : i < s.phases.length := (List.getElem?_eq_some_iff.mp h).1
  have hlist := Step.list (k := k) h
  have hhand := Step.hand (k := k) (i := i) (s := { s with
    admin := { s.admin with
      sections := s.admin.sections.setSources (Admin.cleanSources sources) }
    phases := s.phases.set i (.listed (Admin.cleanSources sources)) })
    (List.getElem?_set_self hi)
  have hask := Step.ask (k := k) (i := i) (s := { s with
    admin := mapBlocklist (·.setSources (Admin.cleanSources sources)) { s.admin with
      sections := s.admin.sections.setSources (Admin.cleanSources sources) }
    phases := s.phases.set i .handed }) (List.getElem?_set_self hi)
  rw [List.set_set] at hhand hask
  rw [updateSources_eq] at hask
  exact .head hlist (.head hhand (.single hask))

/-- What a request changes, and whether it then saves. -/
theorem change_steps {r : Request} (h : s.phases[i]? = some (.arrived r)) :
    Steps k s { s with
      admin := (r.change s.admin).1
      phases := s.phases.set i (if (r.change s.admin).2 then .unsaved else .done) } := by
  cases r with
  | setSources sources => exact updateSources_steps h
  | _ => exact .single (.change h fun _ => Request.noConfusion)

/-- A request that nothing comes between does what it does at once. -/
theorem execute_steps {r : Request} (h : s.phases[i]? = some (.arrived r)) (hfree : s.save = none) :
    let result := r.execute (fun sections disk => k.save disk sections) s.admin s.disk
    ∃ last, Steps k s { s with
      admin := result.2.1
      disk := result.2.2
      phases := s.phases.set i .done
      last } := by
  intro result
  have hi : i < s.phases.length := (List.getElem?_eq_some_iff.mp h).1
  have hchange := change_steps (k := k) h
  rcases hr : r.change s.admin with ⟨admin, saves⟩
  rw [hr] at hchange
  cases saves with
  | false =>
    have hresult : result.2 = (admin, s.disk) := by
      show (Request.execute _ r s.admin s.disk).2 = _
      unfold Request.execute
      rw [hr]
      rfl
    rw [hresult]
    exact ⟨s.last, hchange⟩
  | true =>
    have hresult : result.2 = (admin, (k.save s.disk admin.sections).2) := by
      show (Request.execute _ r s.admin s.disk).2 = _
      unfold Request.execute
      rw [hr]
      rfl
    have hsave := save_steps (k := k) (i := i)
      (s := { s with admin, phases := s.phases.set i .unsaved })
      (List.getElem?_set_self hi) hfree
    rw [List.set_set] at hsave
    rw [hresult]
    exact ⟨_, hchange.trans hsave⟩

end Uninterrupted

end System

/-- A request to the running program, which is carried out at once, takes such steps. -/
theorem State.execute_steps (st : State) (p : Plan) (r : Request) :
    ∃ last, System.Steps p.keeper (.start ⟨st.serve.live, st.sections⟩ st.disk [r])
      { admin := ⟨(st.execute p r).2.serve.live, (st.execute p r).2.sections⟩
        disk := (st.execute p r).2.disk
        phases := [.done]
        last } :=
  System.execute_steps (s := .start ⟨st.serve.live, st.sections⟩ st.disk [r]) (i := 0) rfl rfl

end DnsGate.Program
