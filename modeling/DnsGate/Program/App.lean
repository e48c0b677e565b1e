import DnsGate.Admin.Request
import DnsGate.Serve.Reply
import DnsGate.Settings.File

/-!
The running program: what is set up once from the settings, and what changes.  Questions and
requests of the management interface work on the same rules and the same blocklist.
-/

namespace DnsGate.Program

/-- What is set up once. -/
structure Plan where
  wiring : Serve.Wiring
  keeper : Settings.Keeper

/-- What changes. -/
structure State where
  serve : Serve.State
  sections : Rules.Sections
  disk : Files.Disk

/-- The plan for settings that were loaded from a path. -/
def planFor (s : Settings) (path : String) : Plan where
  wiring := {
    resolver := ⟨s.forwarding.servers, s.forwarding.timeout * 1000⟩
    ipv4Set := s.ipSets.ipv4Set
    ipv6Set := s.ipSets.ipv6Set }
  keeper := ⟨path, s⟩

/-- The blocklist at the start: empty, and only if it is enabled. -/
def startBlocklist (s : Settings) : Option Blocklist.Manager :=
  if s.blocking.enabled then
    some { sources := s.sections.sources, interval := s.blocking.interval }
  else none

/-- What questions and requests share at the start. -/
def startLive (s : Settings) : Serve.Live where
  rules := Rules.RuleSet.ofRules s.sections.domains s.sections.suffixes
  blocklist := startBlocklist s

/-- The state at the start. -/
def startState (s : Settings) (disk : Files.Disk) : State where
  serve := { live := startLive s }
  sections := s.sections
  disk := disk

/-- Carries out a request of the management interface. -/
def State.execute (st : State) (p : Plan) (r : Admin.Request) :
    Admin.Reply Settings.Failure × State :=
  let save (sections : Rules.Sections) (disk : Files.Disk) := p.keeper.save disk sections
  let (reply, admin, disk) := r.execute save ⟨st.serve.live, st.sections⟩ st.disk
  (reply, { serve := { st.serve with live := admin.live }, sections := admin.sections, disk })

/-- Refreshes the blocklist: its count, if there is one. -/
def State.refresh (st : State) (web : String → Blocklist.WebReply) (now : Int) :
    Option Nat × State :=
  match st.serve.live.blocklist with
  | none => (none, st)
  | some m =>
    let (count, m) := m.refresh (Blocklist.fetch ⟨st.disk, web⟩) now
    (some count, { st with
      serve := { st.serve with live := { st.serve.live with blocklist := some m } } })

end DnsGate.Program
