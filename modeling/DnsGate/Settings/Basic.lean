import DnsGate.Rules.Sections
import DnsGate.Text.Blank

/-!
The settings and their defaults.
-/

namespace DnsGate.Settings

/-! ## Parts -/

/-- Where the server listens. -/
structure Server where
  /-- Endpoints for questions, each for datagrams and streams. -/
  listen : List String := ["0.0.0.0:53"]
  /-- The endpoint of the management interface. -/
  api : Option String := some "127.0.0.1:8090"
deriving DecidableEq, Repr

structure Logging where
  level : String := "info"
deriving DecidableEq, Repr

/-- How questions are passed on. -/
structure Forwarding where
  servers : List String := ["1.1.1.1:53", "8.8.8.8:53"]
  /-- Seconds for an attempt on one server. -/
  timeout : Nat := 5
deriving DecidableEq, Repr

/-- The sets of addresses that are fed with answers. -/
structure IpSets where
  ipv4 : Option String := none
  ipv6 : Option String := none
  /-- Seconds that the sets keep an address unless told otherwise. -/
  timeout : Nat := 7200
deriving DecidableEq, Repr

structure RuleLists where
  domains : List String := []
  suffixes : List String := []
deriving DecidableEq, Repr

structure Blocking where
  enabled : Bool := false
  sources : List String := []
  /-- Hours between two refreshes. -/
  refreshHours : Int := 24
deriving DecidableEq, Repr

end DnsGate.Settings

/-- All settings. -/
structure DnsGate.Settings where
  server : Settings.Server := {}
  logging : Settings.Logging := {}
  forwarding : Settings.Forwarding := {}
  ipSets : Settings.IpSets := {}
  rules : Settings.RuleLists := {}
  blocking : Settings.Blocking := {}
deriving DecidableEq, Repr

namespace DnsGate.Settings

/-! ## What follows from them -/

/-- A set name without blanks around it, unless nothing is left. -/
def setName? (name : Option String) : Option String := (name.map Text.trim).filter (· ≠ "")

/-- The set that IPv4 addresses go to. -/
def IpSets.ipv4Set (s : IpSets) : Option String := setName? s.ipv4

/-- The set that IPv6 addresses go to. -/
def IpSets.ipv6Set (s : IpSets) : Option String := setName? s.ipv6

/-- Whether addresses go anywhere. -/
def IpSets.isEnabled (s : IpSets) : Bool := s.ipv4Set.isSome || s.ipv6Set.isSome

/-- The hours in place of numbers that are not positive, and the most hours. -/
def defaultHours : Nat := 24
def maxHours : Nat := 24 * 365

/-- Seconds between two refreshes. -/
def Blocking.interval (b : Blocking) : Nat :=
  (if b.refreshHours ≤ 0 then defaultHours else min b.refreshHours.toNat maxHours) * 3600

/-- The editable sections that settings start with: rules in stored form, each once. -/
def sections (s : Settings) : Rules.Sections where
  domains := Rules.Sections.seed .domain s.rules.domains
  suffixes := Rules.Sections.seed .suffix s.rules.suffixes
  sources := s.blocking.sources

/-- The settings with the lists of some sections in place of their own. -/
def withSections (s : Settings) (sections : Rules.Sections) : Settings :=
  { s with
    rules := ⟨sections.domains, sections.suffixes⟩
    blocking := { s.blocking with sources := sections.sources } }

/-- Settings given when the program starts, which win over the file. -/
structure Overrides where
  level : Option String := none
  listen : Option (List String) := none
deriving DecidableEq, Repr

def override (s : Settings) (o : Overrides) : Settings :=
  { s with
    logging := { s.logging with level := o.level.getD s.logging.level }
    server := { s.server with listen := o.listen.getD s.server.listen } }

end DnsGate.Settings
