import DnsGate.Text.Blank
import DnsGate.Text.Lines

/-!
Hosts files: a line holds an address, then the name it stands for, and perhaps more.  The name is
the second field; lines that are blank, start with `#` or have one field name nothing.
-/

namespace DnsGate.Blocklist

/-- The name on a line, on characters. -/
def hostChars? (line : List Char) : Option (List Char) :=
  let line := Text.trimChars line
  if line.head? = some '#' then none else (Text.fields line)[1]?

/-- The name on a line of a hosts file. -/
def hostOfLine? (line : String) : Option String :=
  (hostChars? line.toList).map String.ofList

/-- The names of a hosts text, line by line. -/
def hosts (text : String) : List String := (Text.lines text).filterMap hostOfLine?

end DnsGate.Blocklist
