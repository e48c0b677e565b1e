import DnsGate.Forward.Forwarder

/-!
The order in which forwarders are tried: by scheme, encrypted ones first, and in the order of the
settings within a scheme.
-/

namespace DnsGate.Forward

/-- The rank of a lower-case scheme word, lower first.  Unknown words rank last. -/
def wordRank : String → Nat
  | "https" | "doh" | "http" => 0
  | "tls" | "dot" => 1
  | "tcp" => 2
  | "udp" => 3
  | _ => 99

/-- The rank of a forwarder's text.  Texts without a scheme rank as datagrams. -/
def rank (text : String) : Nat :=
  match Forwarder.schemeWord? (Text.trimChars text.toList) with
  | none => 3
  | some (word, _) => wordRank word

/-- The texts in the order in which they are tried. -/
def ranked (texts : List String) : List String :=
  texts.mergeSort (fun a b => decide (rank a ≤ rank b))

end DnsGate.Forward
