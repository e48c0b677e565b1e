import Mathlib
import DnsGate.Proofs.Editing
import DnsGate.Proofs.Overlap

/-!
Whether the sources in use are the listed ones.  A request puts new sources into the sections first
and into the blocklist then, and another request may come between: if each comes between the steps
of the other, the blocklist ends up with the sources of the one and the sections with those of the
other, which are the ones that are saved (`sources_part`).  Main statement: whatever else is
requested, the two agree whenever all requests are done exactly if no two requests come with
different sources (`sources_agree_iff`).
-/

namespace DnsGate.Program

open Admin (Request)
open Files (Disk)
open Settings (Keeper)

/-! ## Sources -/

/-- The sources in use, if there is a blocklist. -/
def inUse (a : Admin.State) : Option (List String) := a.live.blocklist.map (·.sources)

theorem inUse_mapBlocklist (f : Blocklist.Manager → Blocklist.Manager) (a : Admin.State) :
    inUse (mapBlocklist f a) = a.live.blocklist.map fun m => (f m).sources :=
  Option.map_map ..

/-- Requests that do not replace the sources leave them as they are. -/
theorem change_sources {r : Request} (hr : ∀ sources, r ≠ .setSources sources) (a : Admin.State) :
    inUse (r.change a).1 = inUse a ∧ (r.change a).1.sections.sources = a.sections.sources := by
  cases r with
  | edit e kind entries =>
    exact ⟨congrArg (Option.map Blocklist.Manager.sources)
      (Admin.editRules_blocklist e kind entries a), Admin.editRules_sources e kind entries a⟩
  | refresh =>
    show inUse ((Admin.requestRefresh? a).getD a) = inUse a ∧
      ((Admin.requestRefresh? a).getD a).sections.sources = a.sections.sources
    unfold Admin.requestRefresh? inUse
    cases h : a.live.blocklist with
    | none => exact ⟨congrArg _ h, rfl⟩
    | some m => exact ⟨rfl, rfl⟩
  | setSources sources => exact absurd rfl (hr sources)
  | rules kind => exact ⟨rfl, rfl⟩
  | status => exact ⟨rfl, rfl⟩
  | save => exact ⟨rfl, rfl⟩

namespace System

/-- All requests are done. -/
def AllDone (s : System) : Prop := ∀ p ∈ s.phases, p = .done

/-- The sources in use are the listed ones. -/
def Agrees (s : System) : Prop := inUse s.admin = some s.admin.sections.sources

/-- A blocklist that is there stays. -/
theorem used_step {k : Keeper} {s s' : System} (hs : Step k s s') :
    (inUse s'.admin).isSome = (inUse s.admin).isSome := by
  cases hs with
  | change hi hr => exact congrArg Option.isSome (change_sources hr s.admin).1
  | hand hi => rw [inUse_mapBlocklist, inUse, Option.isSome_map, Option.isSome_map]
  | ask hi => rw [inUse_mapBlocklist, inUse, Option.isSome_map, Option.isSome_map]
  | _ => rfl

theorem used_steps {k : Keeper} {s s' : System} (hs : Steps k s s') :
    (inUse s'.admin).isSome = (inUse s.admin).isSome := by
  induction hs with
  | refl => rfl
  | tail _ hstep ih => exact (used_step hstep).trans ih

/-! ## Requests with the same sources -/

/-- All requests come with some sources; and the sources in use are the listed ones, or those are
listed and a request is on its way to put them into use. -/
structure Common (sources : List String) (s : System) : Prop where
  arrived : ∀ given, .arrived (.setSources given) ∈ s.phases → Admin.cleanSources given = sources
  listed : ∀ given, .listed given ∈ s.phases → given = sources ∧ s.admin.sections.sources = sources
  agrees : s.Agrees ∨ .listed sources ∈ s.phases

section Same

variable {k : Keeper} {s s' : System} {sources : List String}

/-- A phase that a request leaves for another one is still that of the others. -/
theorem mem_set_of_ne {phases : List Phase} {i : Nat} {old new p : Phase}
    (hi : phases[i]? = some old) (hne : old ≠ p) (hp : p ∈ phases) : p ∈ phases.set i new := by
  obtain ⟨j, hj⟩ := List.mem_iff_getElem?.mp hp
  have hij : i ≠ j := by
    rintro rfl
    exact hne (Option.some.inj (hi.symm.trans hj))
  exact List.mem_iff_getElem?.mpr ⟨j, (List.getElem?_set_ne hij).trans hj⟩

/-- A request goes on that neither lists sources nor puts them into use. -/
theorem Common.goesOn (h : s.Common sources) {i : Nat} {old new : Phase} {admin : Admin.State}
    (hi : s.phases[i]? = some old) (hold : ∀ given, old ≠ .listed given)
    (harrived : ∀ r, new ≠ .arrived r) (hlisted : ∀ given, new ≠ .listed given)
    (huse : inUse admin = inUse s.admin) (hsources : admin.sections.sources = s.admin.sections.sources)
    (hs : s'.admin = admin) (hphases : s'.phases = s.phases.set i new) : s'.Common sources := by
  have hmem {p : Phase} (hp : p ∈ s'.phases) (hne : new ≠ p) : p ∈ s.phases := by
    rw [hphases] at hp
    exact (List.mem_or_eq_of_mem_set hp).resolve_right hne.symm
  subst hs
  refine ⟨?_, ?_, ?_⟩
  · intro given hgiven
    exact h.arrived given (hmem hgiven (harrived _))
  · intro given hgiven
    rw [hsources]
    exact h.listed given (hmem hgiven (hlisted _))
  · refine h.agrees.imp ?_ ?_
    · intro hagrees
      rw [Agrees, huse, hsources]
      exact hagrees
    · intro hon
      rw [hphases]
      exact mem_set_of_ne hi (hold _) hon

theorem Common.step (h : s.Common sources) (ho : s.Owned) (hu : (inUse s.admin).isSome)
    (hs : Step k s s') : s'.Common sources := by
  cases hs with
  | @change i r hi hr =>
    obtain ⟨huse, hsources⟩ := change_sources hr s.admin
    refine h.goesOn hi (fun _ => Phase.noConfusion) ?_ ?_ huse hsources rfl rfl <;>
      cases (r.change s.admin).2 <;> exact fun _ => Phase.noConfusion
  | @list i given hi =>
    obtain rfl : Admin.cleanSources given = sources := h.arrived given (List.mem_of_getElem? hi)
    have hlt : i < s.phases.length := (List.getElem?_eq_some_iff.mp hi).1
    refine ⟨?_, ?_, Or.inr (List.mem_set hlt _)⟩
    · intro other hother
      rcases List.mem_or_eq_of_mem_set hother with hmem | heq
      · exact h.arrived other hmem
      · cases heq
    · intro other hother
      rcases List.mem_or_eq_of_mem_set hother with hmem | heq
      · exact ⟨(h.listed other hmem).1, rfl⟩
      · cases heq
        exact ⟨rfl, rfl⟩
  | @hand i given hi =>
    obtain ⟨rfl, hlisted⟩ := h.listed given (List.mem_of_getElem? hi)
    obtain ⟨m, hm⟩ : ∃ m, s.admin.live.blocklist = some m :=
      Option.isSome_iff_exists.mp (Option.isSome_map.symm.trans hu)
    have huse : inUse (mapBlocklist (·.setSources given) s.admin) = some given := by
      rw [inUse_mapBlocklist, hm]
      rfl
    refine ⟨?_, ?_, Or.inl (huse.trans (congrArg some hlisted.symm))⟩
    · intro other hother
      rcases List.mem_or_eq_of_mem_set hother with hmem | heq
      · exact h.arrived other hmem
      · cases heq
    · intro other hother
      rcases List.mem_or_eq_of_mem_set hother with hmem | heq
      · exact h.listed other hmem
      · cases heq
  | @ask i hi =>
    have huse : inUse (mapBlocklist (·.request) s.admin) = inUse s.admin := inUse_mapBlocklist ..
    exact h.goesOn hi (fun _ => Phase.noConfusion) (fun _ => Phase.noConfusion)
      (fun _ => Phase.noConfusion) huse rfl rfl rfl
  | @lock i hi hfree =>
    exact h.goesOn hi (fun _ => Phase.noConfusion) (fun _ => Phase.noConfusion)
      (fun _ => Phase.noConfusion) rfl rfl rfl rfl
  | @release i result hsave =>
    exact h.goesOn (ho _ hsave) (fun _ => Phase.noConfusion) (fun _ => Phase.noConfusion)
      (fun _ => Phase.noConfusion) rfl rfl rfl rfl
  | _ => exact ⟨h.arrived, h.listed, h.agrees⟩

theorem Common.steps (h : s.Common sources) (ho : s.Owned) (hu : (inUse s.admin).isSome)
    (hs : Steps k s s') : s'.Common sources := by
  -- a step needs the other two as well, so the induction carries all three
  suffices hall : s'.Common sources ∧ s'.Owned ∧ (inUse s'.admin).isSome from hall.1
  induction hs with
  | refl => exact ⟨h, ho, hu⟩
  | tail _ hstep ih =>
    obtain ⟨hcommon, howned, hused⟩ := ih
    exact ⟨hcommon.step howned hused hstep, howned.step hstep, (used_step hstep).symm ▸ hused⟩

theorem Common.agrees_of_allDone (h : s.Common sources) (hdone : s.AllDone) : s.Agrees := by
  rcases h.agrees with hagrees | hon
  · exact hagrees
  · cases hdone _ hon

end Same

/-! ## Requests with different sources -/

section Different

variable {k : Keeper} {s : System}

/-- Requests from some place on are done, one after the other, but for those at two places. -/
theorem exists_steps_othersDone {i j : Nat} (hsave : s.save = none)
    (harrived : ∀ p ∈ s.phases, ∃ r, p = .arrived r) (n : Nat) (hn : n ≤ s.phases.length) :
    ∃ s', Steps k s s' ∧ s'.save = none ∧ s'.phases.length = s.phases.length ∧
      (∀ m, (m = i ∨ m = j ∨ n ≤ m) → s'.phases[m]? = s.phases[m]?) ∧
      ∀ m < n, m ≠ i → m ≠ j → s'.phases[m]? = some .done := by
  induction n with
  | zero => exact ⟨s, .refl, hsave, rfl, fun _ _ => rfl, fun m hm => absurd hm (Nat.not_lt_zero m)⟩
  | succ n ih =>
    obtain ⟨s₁, hsteps, hfree, hlength, hleft, hdone⟩ := ih (Nat.le_of_succ_le hn)
    by_cases hplace : n = i ∨ n = j
    · refine ⟨s₁, hsteps, hfree, hlength, ?_, ?_⟩
      · intro m hm
        exact hleft m (by omega)
      · intro m hm hmi hmj
        exact hdone m (by omega) hmi hmj
    · obtain ⟨r, hr⟩ := harrived _ (List.getElem_mem hn)
      have hn₁ : s₁.phases[n]? = some (.arrived r) := by
        rw [hleft n (by omega), List.getElem?_eq_getElem hn, hr]
      obtain ⟨last, hexecute⟩ := execute_steps (k := k) hn₁ hfree
      refine ⟨_, hsteps.trans hexecute, hfree, by simpa using hlength, ?_, ?_⟩
      · intro m hm
        rw [List.getElem?_set_ne (by omega)]
        exact hleft m (by omega)
      · intro m hm hmi hmj
        by_cases hmn : m = n
        · subst hmn
          exact List.getElem?_set_self (by omega)
        · rw [List.getElem?_set_ne (Ne.symm hmn)]
          exact hdone m (by omega) hmi hmj

/-- Two requests list their sources, then put them into use, the one that has listed its own first
coming last. -/
theorem exists_steps_crossed {i j : Nat} {a b : List String} (hij : i ≠ j)
    (hi : s.phases[i]? = some (.arrived (.setSources a)))
    (hj : s.phases[j]? = some (.arrived (.setSources b))) (hused : (inUse s.admin).isSome) :
    ∃ s', Steps k s s' ∧ s'.save = s.save ∧ s'.phases = (s.phases.set i .handed).set j .handed ∧
      inUse s'.admin = some (Admin.cleanSources a) ∧
      s'.admin.sections.sources = Admin.cleanSources b := by
  have hilt : i < s.phases.length := (List.getElem?_eq_some_iff.mp hi).1
  have hjlt : j < s.phases.length := (List.getElem?_eq_some_iff.mp hj).1
  -- both list their sources, then both put them into use in the opposite order
  obtain ⟨s₁, hlist, hsave₁, hphases₁, huse₁⟩ : ∃ s₁, Step k s s₁ ∧ s₁.save = s.save ∧
      s₁.phases = s.phases.set i (.listed (Admin.cleanSources a)) ∧
      (inUse s₁.admin).isSome := ⟨_, .list hi, rfl, rfl, hused⟩
  obtain ⟨s₂, hlist', hsave₂, hphases₂, huse₂, hsources₂⟩ : ∃ s₂, Step k s₁ s₂ ∧
      s₂.save = s₁.save ∧ s₂.phases = s₁.phases.set j (.listed (Admin.cleanSources b)) ∧
      (inUse s₂.admin).isSome ∧ s₂.admin.sections.sources = Admin.cleanSources b := by
    refine ⟨_, .list (i := j) ?_, rfl, rfl, huse₁, rfl⟩
    rw [hphases₁, List.getElem?_set_ne hij, hj]
  obtain ⟨s₃, hhand, hsave₃, hphases₃, huse₃, hsources₃⟩ : ∃ s₃, Step k s₂ s₃ ∧
      s₃.save = s₂.save ∧ s₃.phases = s₂.phases.set j .handed ∧ (inUse s₃.admin).isSome ∧
      s₃.admin.sections.sources = Admin.cleanSources b := by
    have hstep : Step k s₂ _ := .hand (i := j)
      (show s₂.phases[j]? = some (.listed (Admin.cleanSources b)) by simp [hphases₂, hphases₁, hjlt])
    exact ⟨_, hstep, rfl, rfl, (used_step hstep).symm ▸ huse₂, hsources₂⟩
  obtain ⟨m, hm⟩ : ∃ m, s₃.admin.live.blocklist = some m :=
    Option.isSome_iff_exists.mp (Option.isSome_map.symm.trans huse₃)
  have hhand' : Step k s₃ _ := .hand (i := i)
    (show s₃.phases[i]? = some (.listed (Admin.cleanSources a)) by
      simp [hphases₃, hphases₂, hphases₁, hilt, hij.symm])
  refine ⟨_, .head hlist (.head hlist' (.head hhand (.single hhand'))), ?_, ?_, ?_, hsources₃⟩
  · exact hsave₃.trans (hsave₂.trans hsave₁)
  · show s₃.phases.set i .handed = (s.phases.set i .handed).set j .handed
    rw [hphases₃, hphases₂, hphases₁, List.set_set, List.set_comm _ _ hij, List.set_set,
      List.set_comm _ _ hij.symm]
  · rw [inUse_mapBlocklist, hm]
    rfl

/-- A request that has put its sources into use is done. -/
theorem exists_steps_handed {i : Nat} (hi : s.phases[i]? = some .handed) (hsave : s.save = none) :
    ∃ s', Steps k s s' ∧ s'.save = none ∧ s'.phases = s.phases.set i .done ∧
      inUse s'.admin = inUse s.admin ∧ s'.admin.sections = s.admin.sections := by
  have hask := Step.ask (k := k) hi
  have hsaved := save_steps (k := k) (i := i)
    (s := { s with admin := mapBlocklist (·.request) s.admin, phases := s.phases.set i .unsaved })
    (List.getElem?_set_self (List.getElem?_eq_some_iff.mp hi).1) hsave
  rw [List.set_set] at hsaved
  exact ⟨_, .head hask hsaved, hsave, rfl, inUse_mapBlocklist .., rfl⟩

/-- Two requests with different sources may part the two. -/
theorem exists_steps_parted (k : Keeper) (disk : Disk) {requests : List Request}
    {admin : Admin.State} {a b : List String} (hused : (inUse admin).isSome)
    (ha : .setSources a ∈ requests) (hb : .setSources b ∈ requests) (hne : Admin.cleanSources a ≠ Admin.cleanSources b) :
    ∃ s', Steps k (start admin disk requests) s' ∧ s'.AllDone ∧
      inUse s'.admin = some (Admin.cleanSources a) ∧
      s'.admin.sections.sources = Admin.cleanSources b := by
  obtain ⟨i, hi⟩ := List.mem_iff_getElem?.mp (List.mem_map_of_mem (f := Phase.arrived) ha)
  obtain ⟨j, hj⟩ := List.mem_iff_getElem?.mp (List.mem_map_of_mem (f := Phase.arrived) hb)
  have hij : i ≠ j := by
    rintro rfl
    cases hi.symm.trans hj
    exact hne rfl
  have harrived : ∀ p ∈ (start admin disk requests).phases, ∃ r, p = .arrived r := by
    intro p hp
    obtain ⟨r, -, rfl⟩ := List.mem_map.mp hp
    exact ⟨r, rfl⟩
  -- all but the two are done before the two start
  obtain ⟨s₁, hothers, hsave₁, hlength₁, hleft, hdone⟩ := exists_steps_othersDone (k := k)
    (i := i) (j := j) rfl harrived _ (Nat.le_refl _)
  have hlt {n : Nat} {p : Phase} (hn : (requests.map Phase.arrived)[n]? = some p) :
      n < s₁.phases.length := hlength₁ ▸ (List.getElem?_eq_some_iff.mp hn).1
  obtain ⟨s₂, hcrossed, hsave₂, hphases₂, huse₂, hsources₂⟩ := exists_steps_crossed (k := k)
    (s := s₁) hij (by rw [hleft i (by simp)]; exact hi) (by rw [hleft j (by simp)]; exact hj)
    (by rw [used_steps hothers]; exact hused)
  obtain ⟨s₃, hi', hsave₃, hphases₃, huse₃, hsections₃⟩ := exists_steps_handed (k := k) (s := s₂)
    (i := i) (by simp [hphases₂, hij.symm, hlt hi]) (hsave₂.trans hsave₁)
  obtain ⟨s₄, hj', -, hphases₄, huse₄, hsections₄⟩ := exists_steps_handed (k := k) (s := s₃)
    (i := j) (by simp [hphases₃, hphases₂, hij, hlt hj]) hsave₃
  refine ⟨s₄, hothers.trans (hcrossed.trans (hi'.trans hj')), ?_, by rw [huse₄, huse₃, huse₂],
    by rw [hsections₄, hsections₃, hsources₂]⟩
  intro p hp
  obtain ⟨m, hm⟩ := List.mem_iff_getElem?.mp hp
  rw [hphases₄, hphases₃, hphases₂] at hm
  by_cases hmj : m = j
  · subst hmj
    simpa [hlt hj] using hm.symm
  · by_cases hmi : m = i
    · subst hmi
      simpa [hlt hi, Ne.symm hmj] using hm.symm
    · simp only [ne_eq, Ne.symm hmi, Ne.symm hmj, not_false_eq_true, List.getElem?_set_ne] at hm
      have hmlt : m < s₁.phases.length := (List.getElem?_eq_some_iff.mp hm).1
      exact Option.some.inj (hm.symm.trans (hdone m (hlength₁ ▸ hmlt) hmi hmj))

end Different

/-- Requests come to a server whose blocklist has the listed sources.  Whenever all requests are
done, however their steps came, the sources in use are the listed ones: exactly if no two requests
come with different sources. -/
theorem sources_agree_iff {k : Keeper} {admin : Admin.State} {disk : Disk} {requests : List Request}
    (h : inUse admin = some admin.sections.sources) :
    (∀ s, Steps k (start admin disk requests) s → s.AllDone → s.Agrees) ↔
      ∀ a b, .setSources a ∈ requests → .setSources b ∈ requests →
        Admin.cleanSources a = Admin.cleanSources b := by
  have hused : (inUse admin).isSome := by rw [h]; rfl
  constructor
  · intro hagrees a b ha hb
    by_contra hne
    obtain ⟨s, hsteps, hdone, huse, hsources⟩ :=
      exists_steps_parted k disk hused ha hb hne
    have hagree := hagrees s hsteps hdone
    rw [Agrees, huse, hsources] at hagree
    exact hne (Option.some.inj hagree)
  · intro hsame s hsteps hdone
    obtain ⟨sources, hsources⟩ : ∃ sources, ∀ a, .setSources a ∈ requests →
        Admin.cleanSources a = sources := by
      by_cases hsome : ∃ a, Request.setSources a ∈ requests
      · obtain ⟨a, ha⟩ := hsome
        exact ⟨Admin.cleanSources a, fun b hb => hsame b a hb ha⟩
      · exact ⟨[], fun a ha => absurd ⟨a, ha⟩ hsome⟩
    have hcommon : (start admin disk requests).Common sources := by
      refine ⟨?_, ?_, Or.inl h⟩
      · intro given hgiven
        obtain ⟨r, hr, heq⟩ := List.mem_map.mp hgiven
        cases heq
        exact hsources given hr
      · intro given hgiven
        obtain ⟨r, -, heq⟩ := List.mem_map.mp hgiven
        cases heq
    have howned := owned_start admin disk requests
    exact (hcommon.steps howned hused hsteps).agrees_of_allDone hdone

/-! ## Two requests -/

/-- A server whose blocklist has no sources yet. -/
def noSources : Admin.State := ⟨⟨.empty, some { sources := [], interval := 86400 }⟩, {}⟩

/-- The first request lists its source; the second one lists its own and puts it into use; then the
first one puts its source into use. -/
theorem sources_part :
    ∃ s, Steps ⟨"settings.toml", {}⟩
        (start noSources {} [.setSources ["/hosts/a"], .setSources ["/hosts/b"]]) s ∧
      s.AllDone ∧ inUse s.admin = some ["/hosts/a"] ∧ s.admin.sections.sources = ["/hosts/b"] := by
  have hclean : Admin.cleanSources ["/hosts/a"] = ["/hosts/a"] ∧
      Admin.cleanSources ["/hosts/b"] = ["/hosts/b"] := by decide +kernel
  have hne : Admin.cleanSources ["/hosts/a"] ≠ Admin.cleanSources ["/hosts/b"] := by
    rw [hclean.1, hclean.2]
    decide
  have hparted := exists_steps_parted ⟨"settings.toml", {}⟩ {}
    (show (inUse noSources).isSome from rfl)
    (show Request.setSources ["/hosts/a"] ∈
      [.setSources ["/hosts/a"], .setSources ["/hosts/b"]] by simp) (by simp) hne
  rw [hclean.1, hclean.2] at hparted
  exact hparted

/-- Requests that come with the same source never part the two. -/
theorem sources_agree_same :
    inUse noSources = some noSources.sections.sources ∧
      ∀ s, Steps ⟨"settings.toml", {}⟩
          (start noSources {} [.setSources ["/hosts/a"], .setSources [" /hosts/a", ""]]) s →
        s.AllDone → s.Agrees := by
  have hclean : ∀ c, Request.setSources c ∈
      [Request.setSources ["/hosts/a"], .setSources [" /hosts/a", ""]] →
      Admin.cleanSources c = ["/hosts/a"] := by
    intro c hc
    simp only [List.mem_cons, Request.setSources.injEq, List.not_mem_nil, or_false] at hc
    rcases hc with rfl | rfl
    · decide +kernel
    · decide +kernel
  refine ⟨rfl, (sources_agree_iff rfl).mpr ?_⟩
  intro a b ha hb
  rw [hclean a ha, hclean b hb]

end System

end DnsGate.Program
