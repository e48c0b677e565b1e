import DnsGate.Settings.Basic
import DnsGate.Text.Digits
import DnsGate.Toml.Style

/-!
Settings as the text of a file: one table for every part, a blank line between two of them, and
lists of several texts with one text on a line.
-/

namespace DnsGate.Settings

/-! ## Values -/

def textValue (s : String) : String := String.ofList (Toml.quote s)

/-- A list of texts. -/
def textsValue : List String → String
  | [] => "[]"
  | [s] => "[" ++ textValue s ++ "]"
  | ss => "[\n" ++ String.join (ss.map fun s => "    " ++ textValue s ++ ",\n") ++ "]"

def integerValue : Int → String
  | .ofNat n => Text.decimal n
  | .negSucc n => "-" ++ Text.decimal (n + 1)

def booleanValue (b : Bool) : String := if b then "true" else "false"

/-! ## Tables -/

/-- A table with its lines. -/
def tableText (name : String) (pairs : List (String × String)) : String :=
  "[" ++ name ++ "]\n" ++ String.join (pairs.map fun (k, v) => k ++ " = " ++ v ++ "\n")

/-- A pair for a field that is there. -/
def optionalPair (key : String) (value : Option String) : List (String × String) :=
  (value.map fun s => (key, textValue s)).toList

/-- The text of a file with these settings. -/
def render (s : Settings) : String :=
  "\n".intercalate [
    tableText "server" (("listen", textsValue s.server.listen)
      :: optionalPair "api_listen" s.server.api),
    tableText "logging" [("level", textValue s.logging.level)],
    tableText "dns" [("upstream_servers", textsValue s.forwarding.servers),
      ("timeout_secs", integerValue s.forwarding.timeout)],
    tableText "ipset" (optionalPair "ipv4_name" s.ipSets.ipv4
      ++ optionalPair "ipv6_name" s.ipSets.ipv6
      ++ [("default_timeout_secs", integerValue s.ipSets.timeout)]),
    tableText "rules" [("domains", textsValue s.rules.domains),
      ("suffixes", textsValue s.rules.suffixes)],
    tableText "blocklist" [("enabled", booleanValue s.blocking.enabled),
      ("urls", textsValue s.blocking.sources),
      ("refresh_hours", integerValue s.blocking.refreshHours)]]

end DnsGate.Settings
