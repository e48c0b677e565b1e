import DnsGate.Blocklist.Hosts
import DnsGate.Blocklist.Source
import DnsGate.Rules.RuleSet

/-!
The blocklist.  A refresh builds a new generation from the sources that can be read and puts it in
the place of the old one.  Requests for a refresh share one slot: a second one before the first is
taken adds nothing.
-/

namespace DnsGate.Blocklist

/-! ## Generations -/

/-- What one refresh has found.  `count` counts every name that the sources list. -/
structure Generation where
  rules : Rules.RuleSet := .empty
  count : Nat := 0
  /-- In seconds from the start of 1970. -/
  refreshedAt : Option Int := none
deriving DecidableEq, Repr

namespace Generation

/-- Whether a name or an ancestor of it is listed. -/
def blocks (g : Generation) (name : String) : Bool := g.rules.lists name

/-- Adds a name. -/
def addHost (g : Generation) (host : String) : Generation :=
  { g with rules := (g.rules.addDomain? host).getD g.rules, count := g.count + 1 }

/-- Adds the names of a hosts text. -/
def addText (g : Generation) (text : String) : Generation := (hosts text).foldl addHost g

/-- Adds what a source gives, if anything. -/
def addSource (read : String → Except SourceError String) (g : Generation) (source : String) :
    Generation :=
  match read source with
  | .ok text => g.addText text
  | .error _ => g

/-- The generation that sources give at a time. -/
def build (read : String → Except SourceError String) (now : Int) (sources : List String) :
    Generation :=
  { sources.foldl (addSource read) {} with refreshedAt := some now }

end Generation

/-! ## The manager -/

/-- The current generation, the sources of the next one, and the slot for requests. -/
structure Manager where
  generation : Generation := {}
  sources : List String
  /-- Seconds between two refreshes. -/
  interval : Nat
  requested : Bool := false
deriving DecidableEq, Repr

namespace Manager

/-- Whether a name is blocked now. -/
def blocks (m : Manager) (name : String) : Bool := m.generation.blocks name

def setSources (m : Manager) (sources : List String) : Manager := { m with sources }

/-- Asks for a refresh. -/
def request (m : Manager) : Manager := { m with requested := true }

/-- Takes the request out of the slot; whether there was one. -/
def takeRequest (m : Manager) : Bool × Manager := (m.requested, { m with requested := false })

/-- Publishes a new generation, and tells its count. -/
def refresh (m : Manager) (read : String → Except SourceError String) (now : Int) :
    Nat × Manager :=
  let g := Generation.build read now m.sources
  (g.count, { m with generation := g })

end Manager

end DnsGate.Blocklist
