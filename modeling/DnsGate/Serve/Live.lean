import DnsGate.Blocklist.Manager

/-!
What questions read and requests of the management interface change while the server runs: the
rules and the blocklist.
-/

namespace DnsGate.Serve

/-- Rules and blocklist; without a blocklist nothing is blocked. -/
structure Live where
  rules : Rules.RuleSet
  blocklist : Option Blocklist.Manager
deriving DecidableEq, Repr

/-- Whether a name is blocked. -/
def Live.blocks (l : Live) (name : String) : Bool := l.blocklist.any (·.blocks name)

end DnsGate.Serve
