import Mathlib
import DnsGate.Proofs.Interleaving

/-!
No replacement of sources is lost.  A request may find the slot full, and may come before, while or
after the job refreshes from the sources of before; a tick of the timer may come in between.  Yet
unless a call has still to ask, or the slot is full, what the job has read are the current sources
(`UpToDate`).  Main statement: whenever nothing is left to do, the published generation was built
from the current sources (`published_from_current`).  From every state on the system can come to one
where nothing is left to do, with the sources as they are (`exists_steps_settled`).
-/

namespace DnsGate.Refresh

open Blocklist (Generation Manager SourceError)

/-! ## Where generations come from -/

/-- What sources give that are fetched one after the other, each with any outcome. -/
inductive Gathered : List String → Generation → Prop where
  | none : Gathered [] {}
  | fetched {sources : List String} {found : Generation} (h : Gathered sources found)
      (source : String) (text : Except SourceError String) :
      Gathered (sources ++ [source]) (found.addSource (fun _ => text) source)

/-- A generation was built from sources at some time. -/
def BuiltFrom (sources : List String) (g : Generation) : Prop :=
  ∃ found now, Gathered sources found ∧ g = { found with refreshedAt := some now }

/-- A refresh that finds the same texts all along builds from its sources. -/
theorem builtFrom_build (read : String → Except SourceError String) (now : Int)
    (sources : List String) : BuiltFrom sources (Generation.build read now sources) := by
  refine ⟨sources.foldl (Generation.addSource read) {}, now, ?_, rfl⟩
  induction sources using List.reverseRecOn with
  | nil => exact .none
  | append_singleton sources source ih =>
    rw [List.foldl_append]
    exact .fetched ih source (read source)

namespace System

variable {s s' : System}

/-! ## The invariant -/

/-- What the job has read are the current sources, or it will read the sources yet. -/
def UpToDate (s : System) : Prop :=
  match s.job with
  | .due _ => True
  | .building sources _ _ => sources = s.manager.sources
  | .waiting => s.origin = some s.manager.sources

structure Inv (s : System) : Prop where
  current : Call.replaced ∈ s.calls ∨ s.manager.requested = true ∨ s.UpToDate
  building : ∀ sources left found, s.job = .building sources left found →
    ∃ before, sources = before ++ left ∧ Gathered before found
  published : ∀ sources, s.origin = some sources → BuiltFrom sources s.manager.generation

theorem inv_start (sources : List String) (interval : Nat) (calls : List Call) :
    Inv { manager := { sources, interval }, calls } where
  current := Or.inr (Or.inr trivial)
  building := by
    intro sources left found h
    cases h
  published := by
    intro sources h
    cases h

/-- A job that has read other sources than the current ones finds a request in the slot, or one is
still to come. -/
theorem Inv.upToDate (h : s.Inv) (hcalls : Call.replaced ∉ s.calls)
    (hslot : s.manager.requested = false) : s.UpToDate := by
  rcases h.current with hreplaced | hfull | hcurrent
  · exact absurd hreplaced hcalls
  · rw [hslot] at hfull
    cases hfull
  · exact hcurrent

theorem Inv.step (h : s.Inv) (hs : Step s s') : s'.Inv := by
  cases hs with
  | @replace i sources hi =>
    have hlt : i < s.calls.length := (List.getElem?_eq_some_iff.mp hi).1
    exact ⟨Or.inl (List.mem_set hlt _), h.building, h.published⟩
  | ask hi => exact ⟨Or.inr (Or.inl rfl), h.building, h.published⟩
  | tick hjob =>
    refine ⟨Or.inr (Or.inr trivial), ?_, h.published⟩
    intro sources left found hbuilding
    cases hbuilding
  | take hjob htaken =>
    -- the request leaves the slot, but the job is yet to read the sources
    obtain rfl : s.manager.takeRequest.2 = _ := congrArg Prod.snd htaken
    refine ⟨Or.inr (Or.inr trivial), ?_, h.published⟩
    intro sources left found hbuilding
    cases hbuilding
  | read hjob =>
    refine ⟨Or.inr (Or.inr rfl), ?_, h.published⟩
    intro sources left found hbuilding
    cases hbuilding
    exact ⟨[], rfl, .none⟩
  | @fetch sources left source found hjob text =>
    refine ⟨?_, ?_, h.published⟩
    · have hcurrent := h.current
      rw [UpToDate, hjob] at hcurrent
      exact hcurrent
    · intro sources' left' found' hbuilding
      cases hbuilding
      obtain ⟨before, hsources, hgathered⟩ := h.building _ _ _ hjob
      refine ⟨before ++ [source], ?_, hgathered.fetched source text⟩
      rw [hsources, List.append_assoc, List.singleton_append]
  | @publish sources found hjob now =>
    refine ⟨?_, ?_, ?_⟩
    · have hcurrent := h.current
      rw [UpToDate, hjob] at hcurrent
      exact hcurrent.imp_right (Or.imp_right (congrArg some))
    · intro sources' left' found' hbuilding
      cases hbuilding
    · intro sources' horigin
      cases horigin
      obtain ⟨before, hsources, hgathered⟩ := h.building _ _ _ hjob
      rw [List.append_nil] at hsources
      exact ⟨found, now, hsources ▸ hgathered, rfl⟩

theorem Reachable.inv (h : Reachable s) : s.Inv := by
  induction h with
  | start sources interval calls => exact inv_start sources interval calls
  | step _ hs ih => exact ih.step hs

/-! ## Nothing is left to do -/

/-- No call has replaced the sources without asking for a refresh since, the slot is empty, and the
job waits. -/
structure Settled (s : System) : Prop where
  calls : Call.replaced ∉ s.calls
  slot : s.manager.requested = false
  job : s.job = .waiting

/-- No replacement of sources is lost.  However the steps of the job and of any calls come, when
nothing is left to do the published generation was built from the current sources. -/
theorem published_from_current (h : Reachable s) (hs : s.Settled) :
    s.origin = some s.manager.sources ∧ BuiltFrom s.manager.sources s.manager.generation := by
  have horigin : s.origin = some s.manager.sources := by
    have hcurrent := h.inv.upToDate hs.calls hs.slot
    rw [UpToDate, hs.job] at hcurrent
    exact hcurrent
  exact ⟨horigin, h.inv.published _ horigin⟩

/-- The texts of the sources in the run below. -/
def namedText (source : String) : Except SourceError String := .ok ("0.0.0.0 " ++ source ++ ".test")

/-- What becomes of a system in which a call replaces the sources while the job builds from those of
before: the generation that the job then publishes is out of date, but the request is in the
slot. -/
def replacedWhileBuilding : System where
  manager := {
    generation := Generation.build namedText 2 ["new"]
    sources := ["new"]
    interval := 3600 }
  job := .waiting
  calls := [.done]
  origin := some ["new"]

theorem replaced_while_building :
    Reachable replacedWhileBuilding ∧ replacedWhileBuilding.Settled ∧
      replacedWhileBuilding.origin = some ["new"] ∧
      BuiltFrom ["new"] replacedWhileBuilding.manager.generation := by
  have hbuilding := (Reachable.start ["old"] 3600 [.replace ["new"]]).step (.read rfl)
  have hreplaced := (hbuilding.step (.replace (i := 0) rfl)).step (.ask (i := 0) (Or.inl rfl))
  have hpublished := hreplaced.steps (building_steps namedText 1 rfl)
  have hreached : Reachable replacedWhileBuilding :=
    (hpublished.step (.take rfl rfl)).steps (refresh_steps namedText 2 rfl)
  have hsettled : replacedWhileBuilding.Settled := ⟨by decide, rfl, rfl⟩
  exact ⟨hreached, hsettled, published_from_current hreached hsettled⟩

/-! ## Coming to an end -/

/-- Calls that have still to ask do so. -/
theorem exists_steps_asked (s : System) :
    ∃ s', Steps s s' ∧ Call.replaced ∉ s'.calls ∧ s'.manager.sources = s.manager.sources := by
  generalize hn : s.calls.count .replaced = n
  induction n generalizing s with
  | zero => exact ⟨s, .refl, List.count_eq_zero.mp hn, rfl⟩
  | succ n ih =>
    have hmem : Call.replaced ∈ s.calls := List.count_pos_iff.mp (by omega)
    obtain ⟨i, hi⟩ := List.mem_iff_getElem?.mp hmem
    obtain ⟨hlt, hget⟩ := List.getElem?_eq_some_iff.mp hi
    have hfewer : (s.calls.set i .done).count .replaced = n := by
      rw [List.count_set hlt, hget, hn]
      rfl
    obtain ⟨s', hsteps, hcalls, hsources⟩ :=
      ih { s with manager := s.manager.request, calls := s.calls.set i .done } hfewer
    exact ⟨s', .head (.ask (Or.inl hi)) hsteps, hcalls, hsources⟩

/-- The job comes to wait. -/
theorem exists_steps_waiting (s : System) :
    ∃ s', Steps s s' ∧ s'.job = .waiting ∧ s'.calls = s.calls ∧
      s'.manager.sources = s.manager.sources := by
  cases hjob : s.job with
  | due cause => exact ⟨_, refresh_steps (fun _ => .ok "") 0 hjob, rfl, rfl, rfl⟩
  | building sources left found =>
    exact ⟨_, building_steps (fun _ => .ok "") 0 hjob, rfl, rfl, rfl⟩
  | waiting => exact ⟨s, .refl, hjob, rfl, rfl⟩

/-- From every state on, the system can come to one where nothing is left to do, and the sources are
then those that they are now. -/
theorem exists_steps_settled (s : System) :
    ∃ s', Steps s s' ∧ s'.Settled ∧ s'.manager.sources = s.manager.sources := by
  obtain ⟨s₁, hasked, hcalls, hsources⟩ := exists_steps_asked s
  obtain ⟨s₂, hwaiting, hjob, hcalls₂, hsources₂⟩ := exists_steps_waiting s₁
  rw [← hcalls₂] at hcalls
  have hsteps : Steps s s₂ := hasked.trans hwaiting
  cases hslot : s₂.manager.requested with
  | false => exact ⟨s₂, hsteps, ⟨hcalls, hslot, hjob⟩, hsources₂.trans hsources⟩
  | true =>
    have htaken : s₂.manager.takeRequest = (true, { s₂.manager with requested := false }) :=
      congrArg (·, { s₂.manager with requested := false }) hslot
    have hrefresh := refresh_steps (s := { s₂ with
      manager := { s₂.manager with requested := false }, job := .due .request })
      (fun _ => .ok "") 0 rfl
    exact ⟨_, (hsteps.tail (.take hjob htaken)).trans hrefresh, ⟨hcalls, rfl, rfl⟩,
      hsources₂.trans hsources⟩

end System

end DnsGate.Refresh
