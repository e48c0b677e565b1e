import DnsGate.Rules.Form
import DnsGate.Text.Digits

/-!
Cache keys: the bare name of a question and the number of its type, with a bar between.
-/

namespace DnsGate.Cache

/-- The key under which answers of a type to a name are kept. -/
def key (name : String) (type : UInt16) : String :=
  Rules.bare name ++ "|" ++ Text.decimal type.toNat

end DnsGate.Cache
