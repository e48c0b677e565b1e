import DnsGate.Proofs.LastSave

/-!
Saving is all or nothing.  The new content is written beside the file and then moved there, so that
a save that fails, or a program that stops, leaves at the path of the file what stood there before
or all of the new content.  Main statement: this holds at every moment of a save, whichever step it
has come to and whatever other requests do meanwhile; a save that ends in an error has left the file
alone; and no save, failed or not, changes anything in force (`save_all_or_nothing`).
-/

namespace DnsGate

open Files (Disk)
open Settings (Keeper Failure)

/-! ## Saving at once -/

namespace Settings.Keeper

variable {k : Keeper} {disk disk' : Disk} {c : Rules.Sections}

/-- A save that fails has changed nothing but what stands beside the file. -/
theorem save_error {e : Failure} (h : k.save disk c = (.error e, disk')) {path : String}
    (hpath : path ≠ k.temporary) : disk'.find? path = disk.find? path := by
  unfold save replace at h
  split at h
  · cases h
    rfl
  · split at h
    · cases h
      rfl
    · rename_i written hwritten
      split at h
      · cases h
        rw [Disk.find?_write hwritten, if_neg hpath]
      · cases h

/-- A save that succeeds has put the new content in the place of the file. -/
theorem save_ok (h : k.save disk c = (.ok (), disk')) : ∃ text, k.content disk c = .ok text ∧
    disk'.find? k.path = some (.file (Utf8.encode text)) := by
  unfold save replace at h
  split at h
  · cases h
  · rename_i text htext
    split at h
    · cases h
    · rename_i written hwritten
      split at h
      · cases h
      · rename_i moved hmoved
        cases h
        obtain ⟨content, hcontent, hfind⟩ := Disk.find?_rename hmoved
        rw [Disk.find?_write hwritten, if_pos rfl] at hcontent
        cases hcontent
        refine ⟨text, htext, ?_⟩
        rw [hfind, if_neg (Program.System.temporary_ne_path k), if_pos rfl]

end Settings.Keeper

namespace Program

namespace System

/-! ## Moments -/

/-- What may be found on the disk if the program stops in a state: beside the file anything, as a
write may have been cut off there, and elsewhere what the state has. -/
def Moment (k : Keeper) (s : System) (disk : Disk) : Prop :=
  ∀ path, path ≠ k.temporary → disk.find? path = s.disk.find? path

/-- Steps during which the lock is not released. -/
abbrev Held (k : Keeper) : System → System → Prop :=
  Relation.ReflTransGen fun s s' => Step k s s' ∧ s'.save.isSome

/-- Steps in which no request gets on but one. -/
abbrev Alone (k : Keeper) (i : Nat) : System → System → Prop :=
  Relation.ReflTransGen fun s s' => Step k s s' ∧ ∀ j, j ≠ i → s'.phases[j]? = s.phases[j]?

/-- Sections that were the current ones at some time between two states. -/
def Current (k : Keeper) (s₁ s : System) (c : Rules.Sections) : Prop :=
  ∃ between, Held k s₁ between ∧ between.admin.sections = c ∧ Held k between s

/-- The complete new content stands at the path of the file: that which was composed from the file
as it was in a state and from sections that were current since. -/
def Replaced (k : Keeper) (s₁ s : System) (disk : Disk) : Prop :=
  ∃ c text, Current k s₁ s c ∧ k.content s₁.disk c = .ok text ∧
    disk.find? k.path = some (.file (Utf8.encode text))

/-! ## One save -/

/-- What a save has done to the disk at a stage, since it took the lock in `s₁`. -/
def Clean (k : Keeper) (s₁ s : System) : Stage → Prop
  | .locked => s.disk = s₁.disk
  | .taken c => s.disk = s₁.disk ∧ Current k s₁ s c
  | .composed c text => s.disk = s₁.disk ∧ Current k s₁ s c ∧ k.content s₁.disk c = .ok text
  | .written c text => s.disk.find? k.path = s₁.disk.find? k.path ∧
      Current k s₁ s c ∧ k.content s₁.disk c = .ok text ∧
      s.disk.find? k.temporary = some (.file (Utf8.encode text))
  | .ended (.ok ()) => Replaced k s₁ s s.disk
  | .ended (.error _) => s.disk.find? k.path = s₁.disk.find? k.path

section Held

variable {k : Keeper} {s₁ s s' : System} {i : Nat} {stage : Stage}

theorem Current.step {c : Rules.Sections} (h : Current k s₁ s c)
    (hs : Step k s s' ∧ s'.save.isSome) : Current k s₁ s' c := by
  obtain ⟨between, hbefore, hc, hafter⟩ := h
  exact ⟨between, hbefore, hc, hafter.tail hs⟩

/-- Steps of other requests do not touch the disk. -/
theorem Clean.others (h : Clean k s₁ s stage) (hs : Step k s s' ∧ s'.save.isSome)
    (hdisk : s'.disk = s.disk) : Clean k s₁ s' stage := by
  have hpath : s'.disk.find? k.path = s.disk.find? k.path := congrArg (·.find? k.path) hdisk
  cases stage with
  | locked => exact hdisk.trans h
  | taken c => exact ⟨hdisk.trans h.1, h.2.step hs⟩
  | composed c text => exact ⟨hdisk.trans h.1, h.2.1.step hs, h.2.2⟩
  | written c text =>
    obtain ⟨hfile, hc, htext, hbeside⟩ := h
    exact ⟨hpath.trans hfile, hc.step hs, htext, hdisk ▸ hbeside⟩
  | ended result =>
    cases result with
    | ok =>
      obtain ⟨c, text, hc, htext, hfile⟩ := h
      exact ⟨c, text, hc.step hs, htext, hpath.trans hfile⟩
    | error e => exact hpath.trans h

/-- A save that has not ended has left the file alone. -/
theorem Clean.unchanged (h : Clean k s₁ s stage) (hstage : ∀ result, stage ≠ .ended result) :
    s.disk.find? k.path = s₁.disk.find? k.path := by
  cases stage with
  | locked => exact congrArg (·.find? k.path) h
  | taken c => exact congrArg (·.find? k.path) h.1
  | composed c text => exact congrArg (·.find? k.path) h.1
  | written c text => exact h.1
  | ended result => exact absurd rfl (hstage result)

/-- One step while the lock is held, of the save or of another request. -/
theorem clean_step (hbefore : Held k s₁ s) (h : s.save = some ⟨i, stage⟩)
    (hclean : Clean k s₁ s stage) (hs : Step k s s' ∧ s'.save.isSome) :
    ∃ next, s'.save = some ⟨i, next⟩ ∧ Clean k s₁ s' next := by
  have hstep := hs.1
  cases hstep with
  | change hi hr => exact ⟨stage, h, hclean.others hs rfl⟩
  | list hi => exact ⟨stage, h, hclean.others hs rfl⟩
  | hand hi => exact ⟨stage, h, hclean.others hs rfl⟩
  | ask hi => exact ⟨stage, h, hclean.others hs rfl⟩
  | lock hi hfree => cases hfree.symm.trans h
  | take hsave =>
    cases h.symm.trans hsave
    exact ⟨_, rfl, hclean, s, hbefore, rfl, .single hs⟩
  | compose hsave htext =>
    cases h.symm.trans hsave
    obtain ⟨hdisk, hc⟩ := hclean
    exact ⟨_, rfl, hdisk, hc.step hs, hdisk ▸ htext⟩
  | write hsave hdisk =>
    cases h.symm.trans hsave
    obtain ⟨hsame, hc, htext⟩ := hclean
    have hfind := Disk.find?_write hdisk
    have hfile := hfind k.path
    have hbeside := hfind k.temporary
    rw [if_neg (temporary_ne_path k), hsame] at hfile
    rw [if_pos rfl] at hbeside
    exact ⟨_, rfl, hfile, hc.step hs, htext, hbeside⟩
  | move hsave hdisk =>
    cases h.symm.trans hsave
    obtain ⟨-, hc, htext, hbeside⟩ := hclean
    obtain ⟨content, hcontent, hfind⟩ := Disk.find?_rename hdisk
    cases hbeside.symm.trans hcontent
    have hfile := hfind k.path
    rw [if_neg (temporary_ne_path k), if_pos rfl] at hfile
    exact ⟨_, rfl, _, _, hc.step hs, htext, hfile⟩
  | fail hsave hstage e hdisk =>
    -- whatever has failed, only what stands beside the file may have changed
    cases h.symm.trans hsave
    exact ⟨_, rfl, (hdisk k.path (temporary_ne_path k)).trans (hclean.unchanged hstage)⟩
  | release hsave => cases hs.2

theorem held_clean (h : s₁.save = some ⟨i, .locked⟩) (hs : Held k s₁ s) :
    ∃ stage, s.save = some ⟨i, stage⟩ ∧ Clean k s₁ s stage := by
  induction hs with
  | refl => exact ⟨.locked, h, rfl⟩
  | tail hbefore hstep ih =>
    obtain ⟨stage, hsave, hclean⟩ := ih
    exact clean_step hbefore hsave hclean hstep

end Held

/-! ## What is in force -/

/-- How far a request has changed what is in force, in each of its phases. -/
def Changed (r : Admin.Request) (before now : Admin.State) : Phase → Prop
  | .arrived r' => r' = r ∧ now = before
  | .listed sources => ∃ given, r = .setSources given ∧ sources = Admin.cleanSources given ∧
      now = { before with sections := before.sections.setSources sources }
  | .handed => ∃ given, r = .setSources given ∧
      now = mapBlocklist (·.setSources (Admin.cleanSources given))
        { before with sections := before.sections.setSources (Admin.cleanSources given) }
  | .unsaved | .saving | .done => now = (r.change before).1

section Alone

variable {k : Keeper} {s₀ s s' : System} {i j : Nat} {old new : Phase} {r : Admin.Request}
  {before : Admin.State}

/-- A request that gets on is the one that may. -/
theorem eq_of_alone (h : s.phases[j]? = some old) (hne : old ≠ new)
    (halone : ∀ j', j' ≠ i → (s.phases.set j new)[j']? = s.phases[j']?) : j = i := by
  by_contra hji
  have hj := halone j hji
  rw [List.getElem?_set_self (List.getElem?_eq_some_iff.mp h).1, h] at hj
  exact hne (Option.some.inj hj).symm

theorem changed_step (ho : s.Owned) (h : s.phases[i]? = some old)
    (hchanged : Changed r before s.admin old)
    (hs : Step k s s' ∧ ∀ j, j ≠ i → s'.phases[j]? = s.phases[j]?) :
    ∃ next, s'.phases[i]? = some next ∧ Changed r before s'.admin next := by
  obtain ⟨hstep, halone⟩ := hs
  have hi : i < s.phases.length := (List.getElem?_eq_some_iff.mp h).1
  cases hstep with
  | @change j r' hj hr =>
    obtain rfl := eq_of_alone hj (by split <;> exact Phase.noConfusion) halone
    cases h.symm.trans hj
    obtain ⟨rfl, hadmin⟩ := hchanged
    refine ⟨_, List.getElem?_set_self hi, ?_⟩
    rw [hadmin]
    split <;> rfl
  | @list j given hj =>
    obtain rfl := eq_of_alone hj Phase.noConfusion halone
    cases h.symm.trans hj
    obtain ⟨rfl, hadmin⟩ := hchanged
    exact ⟨_, List.getElem?_set_self hi, given, rfl, rfl, by rw [hadmin]⟩
  | @hand j sources hj =>
    obtain rfl := eq_of_alone hj Phase.noConfusion halone
    cases h.symm.trans hj
    obtain ⟨given, hr, rfl, hadmin⟩ := hchanged
    exact ⟨_, List.getElem?_set_self hi, given, hr, by rw [hadmin]⟩
  | @ask j hj =>
    obtain rfl := eq_of_alone hj Phase.noConfusion halone
    cases h.symm.trans hj
    obtain ⟨given, rfl, hadmin⟩ := hchanged
    refine ⟨_, List.getElem?_set_self hi, ?_⟩
    show mapBlocklist (·.request) s.admin = _
    rw [hadmin, updateSources_eq]
    rfl
  | @lock j hj hfree =>
    obtain rfl := eq_of_alone hj Phase.noConfusion halone
    cases h.symm.trans hj
    exact ⟨_, List.getElem?_set_self hi, hchanged⟩
  | @release j result hsave =>
    have hj := ho _ hsave
    obtain rfl := eq_of_alone hj Phase.noConfusion halone
    cases h.symm.trans hj
    exact ⟨_, List.getElem?_set_self hi, hchanged⟩
  | take hsave => exact ⟨old, h, hchanged⟩
  | compose hsave htext => exact ⟨old, h, hchanged⟩
  | write hsave hdisk => exact ⟨old, h, hchanged⟩
  | move hsave hdisk => exact ⟨old, h, hchanged⟩
  | fail hsave hstage e hdisk => exact ⟨old, h, hchanged⟩

theorem steps_of_and {P : System → System → Prop}
    (hs : Relation.ReflTransGen (fun s s' => Step k s s' ∧ P s s') s₀ s) : Steps k s₀ s :=
  Relation.ReflTransGen.mono (fun _ _ hstep => hstep.1) s₀ s hs

theorem alone_changed (ho : s₀.Owned) (h : s₀.phases[i]? = some old)
    (hchanged : Changed r before s₀.admin old) (hs : Alone k i s₀ s) :
    ∃ next, s.phases[i]? = some next ∧ Changed r before s.admin next := by
  induction hs with
  | refl => exact ⟨old, h, hchanged⟩
  | tail hbefore hstep ih =>
    obtain ⟨next, hnext, hnow⟩ := ih
    exact changed_step (ho.steps (steps_of_and hbefore)) hnext hnow hstep

end Alone

/-! ## All or nothing -/

section Atomic

variable {k : Keeper} {s₀ s₁ s : System} {i : Nat} {disk : Disk}

/-- Wherever a save stands, the file is as it was or has all of the new content. -/
theorem Clean.atomic {stage : Stage} (h : Clean k s₁ s stage) (hm : Moment k s disk) :
    disk.find? k.path = s₁.disk.find? k.path ∨ Replaced k s₁ s disk := by
  have hfile : disk.find? k.path = s.disk.find? k.path := hm k.path (temporary_ne_path k)
  rcases stage with _ | c | ⟨c, text⟩ | ⟨c, text⟩ | ⟨e | _⟩
  · exact Or.inl (hfile.trans (h.unchanged fun _ => Stage.noConfusion))
  · exact Or.inl (hfile.trans (h.unchanged fun _ => Stage.noConfusion))
  · exact Or.inl (hfile.trans (h.unchanged fun _ => Stage.noConfusion))
  · exact Or.inl (hfile.trans (h.unchanged fun _ => Stage.noConfusion))
  · exact Or.inl (hfile.trans h)
  · obtain ⟨c, text, hc, htext, hnew⟩ := h
    exact Or.inr ⟨c, text, hc, htext, hfile.trans hnew⟩

/-- Saving is all or nothing.

At once: a save that returns an error leaves the file as it was, one that returns none puts the
content that it has composed in its place, and a request leaves in force what it has changed,
whatever its save returns.

Step by step: let a request have arrived in a state `s₀` that any requests may have led to, have
taken the lock in `s₁` for its save, and let the save have come to `s`, with or without steps of
other requests in between.  If the program stops then, the file is as it was in `s₁`, or it holds
exactly the content that was composed from the file in `s₁` and from sections that were current
since.  If the save has ended in an error, the file is as it was; if it has succeeded, the file
holds that content.  However the save has fared, the live rules, the blocklist and the sections are
as they were in `s₁`, and what the request has made of them, unless other requests have got on. -/
theorem save_all_or_nothing {admin : Admin.State} {disk₀ : Disk} {requests : List Admin.Request}
    {r : Admin.Request} (hs₀ : Steps k (start admin disk₀ requests) s₀)
    (hr : s₀.phases[i]? = some (.arrived r)) (hs₁ : Steps k s₀ s₁)
    (hlock : s₁.save = some ⟨i, .locked⟩) (hsave : Held k s₁ s) :
    (∀ disk c, match k.save disk c with
      | (.error _, after) => after.find? k.path = disk.find? k.path
      | (.ok (), after) => ∃ text, k.content disk c = .ok text ∧
          after.find? k.path = some (.file (Utf8.encode text))) ∧
    (∀ a disk, (r.execute (fun c disk => k.save disk c) a disk).2.1 = (r.change a).1) ∧
    (∀ disk, Moment k s disk →
      (disk.find? k.path = s₁.disk.find? k.path ∨ Replaced k s₁ s disk) ∧
      (∀ e, s.save = some ⟨i, .ended (.error e)⟩ →
        disk.find? k.path = s₁.disk.find? k.path) ∧
      (s.save = some ⟨i, .ended (.ok ())⟩ → Replaced k s₁ s disk)) ∧
    (Alone k i s₁ s → s.admin = s₁.admin) ∧
    (Alone k i s₀ s₁ → Alone k i s₁ s → s.admin = (r.change s₀.admin).1) := by
  obtain ⟨stage, hstage, hclean⟩ := held_clean hlock hsave
  have ho₀ : s₀.Owned := (owned_start admin disk₀ requests).steps hs₀
  have ho₁ : s₁.Owned := ho₀.steps hs₁
  have hsaving : s.phases[i]? = some .saving := ho₁.steps (steps_of_and hsave) _ hstage
  refine ⟨fun disk c => ?_, fun _ _ => rfl,
    fun disk hm => ⟨hclean.atomic hm, fun e he => ?_, fun hok => ?_⟩, fun halone => ?_,
    fun hbefore hafter => ?_⟩
  · rcases hresult : k.save disk c with ⟨_ | _, after⟩
    · exact Keeper.save_error hresult (temporary_ne_path k)
    · exact Keeper.save_ok hresult
  · cases hstage.symm.trans he
    exact (hm k.path (temporary_ne_path k)).trans hclean
  · cases hstage.symm.trans hok
    obtain ⟨c, text, hc, htext, hnew⟩ := hclean
    exact ⟨c, text, hc, htext, (hm k.path (temporary_ne_path k)).trans hnew⟩
  · -- the rest of the request is a request to save, which changes nothing
    obtain ⟨next, hnext, hchanged⟩ := alone_changed (r := .save) ho₁ (ho₁ _ hlock)
      (rfl : s₁.admin = _) halone
    cases hsaving.symm.trans hnext
    exact hchanged
  · obtain ⟨next, hnext, hchanged⟩ := alone_changed ho₀ hr ⟨rfl, rfl⟩
      (hbefore.trans hafter)
    cases hsaving.symm.trans hnext
    exact hchanged

end Atomic

/-! ## A save that fails at its last step -/

/-- A request to add `a.test` to empty rules has arrived. -/
def arrived : System := start ⟨⟨.empty, none⟩, {}⟩ {} [.edit .add .domain ["a.test"]]

/-- Its change is made, and is about to be saved. -/
def aboutToSave : System where
  admin := ((Admin.Request.edit .add .domain ["a.test"]).change arrived.admin).1
  disk := {}
  phases := [.saving]
  save := some ⟨0, .locked⟩

/-- The new content was written beside the file and could not be moved there. -/
def notMoved : System :=
  { aboutToSave with
    disk := ⟨Data.Table.empty.insert defaultsKeeper.temporary (.file (Utf8.encode
      (defaultsKeeper.base.withSections aboutToSave.admin.sections).render))⟩
    save := some ⟨0, .ended (.error (.write "settings.toml" .isDirectory))⟩ }

theorem arrived_aboutToSave : Alone defaultsKeeper 0 arrived aboutToSave := by
  have hothers (s s' : System) (h : s.phases.length = 1) (h' : s'.phases.length = 1) (j : Nat)
      (hj : j ≠ 0) : s'.phases[j]? = s.phases[j]? := by
    rw [List.getElem?_eq_none (by omega), List.getElem?_eq_none (by omega)]
  refine .head ⟨.change (i := 0) rfl fun _ => Admin.Request.noConfusion, hothers _ _ rfl rfl⟩ ?_
  exact .single ⟨.lock (i := 0) rfl rfl, hothers _ _ rfl rfl⟩

theorem aboutToSave_notMoved : Relation.ReflTransGen
    (fun s s' => Step defaultsKeeper s s' ∧ s'.save.isSome ∧ s'.phases = s.phases)
    aboutToSave notMoved := by
  refine .head ⟨.take (i := 0) rfl, rfl, rfl⟩ ?_
  refine .head ⟨.compose (i := 0) rfl rfl, rfl, rfl⟩ ?_
  refine .head ⟨.write (i := 0) rfl rfl, rfl, rfl⟩ ?_
  exact .single ⟨.fail (i := 0) rfl (fun _ => Stage.noConfusion) _ fun _ _ => rfl, rfl, rfl⟩

theorem notMoved_in_force :
    Steps defaultsKeeper arrived aboutToSave ∧ Held defaultsKeeper aboutToSave notMoved ∧
      (∀ disk, Moment defaultsKeeper notMoved disk → disk.find? "settings.toml" = none) ∧
      notMoved.admin.sections.domains = ["a.test"] ∧
      notMoved.admin.live.rules.covers "a.test" = true := by
  have hstart : Steps defaultsKeeper arrived arrived := .refl
  have hbefore := steps_of_and arrived_aboutToSave
  have hheld : Held defaultsKeeper aboutToSave notMoved :=
    Relation.ReflTransGen.mono (fun _ _ h => ⟨h.1, h.2.1⟩) _ _ aboutToSave_notMoved
  have halone : Alone defaultsKeeper 0 aboutToSave notMoved :=
    Relation.ReflTransGen.mono (fun _ _ h => ⟨h.1, fun j _ => by rw [h.2.2]⟩) _ _
      aboutToSave_notMoved
  obtain ⟨-, -, hmoments, -, hforce⟩ := save_all_or_nothing hstart rfl hbefore rfl hheld
  have hadmin := hforce arrived_aboutToSave halone
  refine ⟨hbefore, hheld, fun disk hm => ?_, ?_, ?_⟩
  · exact (hmoments disk hm).2.1 _ rfl
  · rw [hadmin]
    decide
  · rw [hadmin]
    decide

end System

end Program

end DnsGate
