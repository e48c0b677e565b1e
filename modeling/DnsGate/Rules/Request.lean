import DnsGate.Text.Blank
import DnsGate.Text.Lines

/-!
The body of a rule request: one entry per line, blanks around it and empty lines ignored.
-/

namespace DnsGate.Rules

/-- The entries that a request body lists. -/
def entriesOf (body : String) : List String :=
  ((Text.lines body).map Text.trim).filter (· ≠ "")

end DnsGate.Rules
