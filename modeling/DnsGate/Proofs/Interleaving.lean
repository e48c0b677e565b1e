import Mathlib.Logic.Relation
import DnsGate.Admin.Request
import DnsGate.Refresh.Loop

/-!
The refresh job beside calls of the management interface, in steps that may come in any order.  The
job and the calls share the manager of the blocklist; every access to it is a step of its own, and
so is every source that the job fetches, whose text may be another one each time.  The timer may
fire whenever the job waits.

A refresh that nothing comes between is `Manager.refresh` (`refresh_steps`), a call that nothing
comes between is `Admin.updateSources` (`updateSources_steps`), and every step of the timed `Loop`
is made of steps of this system (`Loop.step_steps`).
-/

namespace DnsGate.Refresh

open Blocklist (Generation Manager SourceError)

/-! ## The parties -/

/-- A call of the management interface, by what it has still to do. -/
inductive Call where
  /-- Replaces the sources, then asks for a refresh. -/
  | replace (sources : List String)
  /-- The sources are replaced; the refresh is still to be asked for. -/
  | replaced
  /-- Asks for a refresh. -/
  | ask
  | done
deriving DecidableEq, Repr

/-- Where the job stands between two of its steps. -/
inductive Job where
  /-- A refresh is due, and the sources are still to be read. -/
  | due (cause : Cause)
  /-- A generation is built from the sources that were read, those of `left` being still to be
  fetched. -/
  | building (sources left : List String) (found : Generation)
  | waiting
deriving DecidableEq, Repr

/-- The manager, the job and the calls.  `origin` tells the sources that the published generation
was built from; before the first refresh there are none. -/
structure System where
  manager : Manager
  job : Job := .due .start
  calls : List Call
  origin : Option (List String) := none
deriving DecidableEq, Repr

namespace System

/-! ## Steps -/

inductive Step : System → System → Prop where
  | replace {s : System} {i : Nat} {sources : List String}
      (h : s.calls[i]? = some (.replace sources)) :
      Step s { s with
        manager := s.manager.setSources sources
        calls := s.calls.set i .replaced }
  | ask {s : System} {i : Nat} (h : s.calls[i]? = some .replaced ∨ s.calls[i]? = some .ask) :
      Step s { s with manager := s.manager.request, calls := s.calls.set i .done }
  | tick {s : System} (h : s.job = .waiting) : Step s { s with job := .due .tick }
  | take {s : System} {manager : Manager} (h : s.job = .waiting)
      (htaken : s.manager.takeRequest = (true, manager)) :
      Step s { s with manager, job := .due .request }
  | read {s : System} {cause : Cause} (h : s.job = .due cause) :
      Step s { s with job := .building s.manager.sources s.manager.sources {} }
  | fetch {s : System} {sources left : List String} {source : String} {found : Generation}
      (h : s.job = .building sources (source :: left) found) (text : Except SourceError String) :
      Step s { s with job := .building sources left (found.addSource (fun _ => text) source) }
  | publish {s : System} {sources : List String} {found : Generation}
      (h : s.job = .building sources [] found) (now : Int) :
      Step s { s with
        manager := { s.manager with generation := { found with refreshedAt := some now } }
        job := .waiting
        origin := some sources }

/-- Some steps, one after the other. -/
abbrev Steps : System → System → Prop := Relation.ReflTransGen Step

/-- What may become of a manager that has published nothing and of a job that has not started,
beside any calls. -/
inductive Reachable : System → Prop where
  | start (sources : List String) (interval : Nat) (calls : List Call) :
      Reachable { manager := { sources, interval }, calls }
  | step {s s' : System} (h : Reachable s) (hs : Step s s') : Reachable s'

theorem Reachable.steps {s s' : System} (h : Reachable s) (hs : Steps s s') : Reachable s' := by
  induction hs with
  | refl => exact h
  | tail _ hstep ih => exact ih.step hstep

/-! ## Steps that nothing comes between -/

section Uninterrupted

variable {s : System} (read : String → Except SourceError String) (now : Int)

theorem fetch_steps {sources left : List String} {found : Generation}
    (h : s.job = .building sources left found) :
    Steps s { s with job := .building sources [] (left.foldl (Generation.addSource read) found) } := by
  induction left generalizing s found with
  | nil =>
    rw [List.foldl_nil, ← h]
  | cons source left ih =>
    exact .head (.fetch h (read source)) (ih rfl)

/-- A job that is building comes to wait again. -/
theorem building_steps {sources left : List String} {found : Generation}
    (h : s.job = .building sources left found) :
    Steps s { s with
      manager := { s.manager with
        generation := { left.foldl (Generation.addSource read) found with
          refreshedAt := some now } }
      job := .waiting
      origin := some sources } :=
  .tail (fetch_steps read h) (.publish rfl now)

theorem refresh_steps {cause : Cause} (h : s.job = .due cause) :
    Steps s { s with
      manager := (s.manager.refresh read now).2
      job := .waiting
      origin := some s.manager.sources } :=
  .head (.read h) (building_steps read now rfl)

end Uninterrupted

/-- What a request of the management interface does to the manager is what its call does at once. -/
theorem updateSources_steps {s : System} {i : Nat} {sources : List String} {a : Admin.State}
    (ha : a.live.blocklist = some s.manager)
    (h : s.calls[i]? = some (.replace (Admin.cleanSources sources))) :
    ∃ manager, (Admin.updateSources sources a).live.blocklist = some manager ∧
      Steps s { s with manager, calls := s.calls.set i .done } := by
  have hi : i < s.calls.length := (List.getElem?_eq_some_iff.mp h).1
  refine ⟨(s.manager.setSources (Admin.cleanSources sources)).request, ?_, ?_⟩
  · unfold Admin.updateSources
    rw [ha]
    rfl
  · have hnext : (s.calls.set i .replaced)[i]? = some .replaced := List.getElem?_set_self hi
    have hstep := Step.ask (s := { s with
      manager := s.manager.setSources (Admin.cleanSources sources)
      calls := s.calls.set i .replaced }) (Or.inl hnext)
    rw [List.set_set] at hstep
    exact .tail (.single (.replace h)) hstep

end System

/-! ## The timed loop -/

namespace Loop

/-- The system stands where the timed loop stands. -/
def StandsAt (l : Loop) (s : System) : Prop :=
  l.requested = s.manager.requested ∧
    match l.phase with
    | .starting => ∃ cause, s.job = .due cause
    | .refreshing _ _ => ∃ sources left found, s.job = .building sources left found
    | .waiting => s.job = .waiting
    | .stopped => False

theorem startRefresh_eq (l : Loop) (now : Nat) (cause : Cause) :
    ∃ finish durations, l.startRefresh now cause =
      { l with phase := .refreshing cause finish, durations } := by
  unfold startRefresh
  split
  · exact ⟨now, _, rfl⟩
  · exact ⟨_, _, rfl⟩
  · exact ⟨_, _, rfl⟩

variable {l : Loop} {s : System}

/-- A loop that starts a refresh stands where the system has read the sources. -/
theorem startRefresh_steps {due : Cause} (cause : Cause) (now : Nat)
    (hslot : l.requested = s.manager.requested) (h : s.job = .due due) :
    ∃ s', System.Steps s s' ∧ (l.startRefresh now cause).StandsAt s' := by
  obtain ⟨finish, durations, hstart⟩ := startRefresh_eq l now cause
  refine ⟨_, .single (.read h), ?_⟩
  rw [hstart]
  exact ⟨hslot, _, _, _, rfl⟩

/-- Every step of the timed loop is made of steps of the system. -/
theorem step_steps (h : l.StandsAt s) (now : Nat) :
    ∃ s', System.Steps s s' ∧ (l.step now).1.StandsAt s' := by
  obtain ⟨period, phase, requested, nextTick, durations⟩ := l
  obtain ⟨hslot, hphase⟩ := h
  cases phase with
  | starting =>
    obtain ⟨cause, hjob⟩ := hphase
    exact startRefresh_steps .start now hslot hjob
  | refreshing cause finish =>
    obtain ⟨sources, left, found, hjob⟩ := hphase
    exact ⟨_, System.building_steps (fun _ => .ok "") 0 hjob, hslot, rfl⟩
  | waiting =>
    cases requested with
    | true =>
      have htaken : s.manager.takeRequest = (true, { s.manager with requested := false }) :=
        congrArg (·, { s.manager with requested := false }) hslot.symm
      obtain ⟨s', hsteps, hstands⟩ := startRefresh_steps
        (l := ⟨period, .waiting, false, nextTick, durations⟩)
        (s := { s with
          manager := { s.manager with requested := false }, job := .due .request })
        .request now rfl rfl
      exact ⟨s', .head (.take hphase htaken) hsteps, hstands⟩
    | false =>
      obtain ⟨s', hsteps, hstands⟩ := startRefresh_steps
        (l := ⟨period, .waiting, false, nextTick + period, durations⟩)
        (s := { s with job := .due .tick }) .tick now hslot rfl
      exact ⟨s', .head (.tick hphase) hsteps, hstands⟩
  | stopped => exact hphase.elim

/-- So is a request from outside. -/
theorem force_steps {i : Nat} (h : l.StandsAt s) (hi : s.calls[i]? = some .ask) :
    ∃ s', System.Steps s s' ∧ (l.receive .force).StandsAt s' :=
  ⟨_, .single (.ask (Or.inr hi)), rfl, h.2⟩

end Loop

end DnsGate.Refresh
