import DnsGate.Net.Address

/-!
Endpoints: an address together with the number of the service on it, written `1.2.3.4:53` or
`[2001:db8::1]:53`.  An IPv6 endpoint may name a zone by number, `[fe80::1%3]:53`.
-/

namespace DnsGate.Net

/-- Where a service is reached: an address, its zone (zero for none) and the service number. -/
structure Endpoint where
  ip : Ip
  zone : UInt32 := 0
  service : UInt16
deriving DecidableEq, Repr

namespace Endpoint

/-- The number after a given character, below `bound`. -/
def readAfter (mark : Char) (bound : Nat) (cs : List Char) : Option (Nat × List Char) := do
  let rest ← readChar mark cs
  let (n, rest) ← readNumber 10 rest.length true rest
  if n < bound then some (n, rest) else none

/-- Reads `address:service`. -/
def readV4 (cs : List Char) : Option (Endpoint × List Char) := do
  let (ip, cs) ← readIpv4 cs
  let (n, cs) ← readAfter ':' 65536 cs
  some (⟨.v4 ip, 0, UInt16.ofNat n⟩, cs)

/-- Reads `[address]:service` or `[address%zone]:service`. -/
def readV6 (cs : List Char) : Option (Endpoint × List Char) := do
  let (ip, cs) ← readIpv6 (← readChar '[' cs)
  let (zone, cs) := (readAfter '%' 4294967296 cs).getD (0, cs)
  let (n, cs) ← readAfter ':' 65536 (← readChar ']' cs)
  some (⟨.v6 ip, UInt32.ofNat zone, UInt16.ofNat n⟩, cs)

/-- The endpoint that a whole text writes. -/
def parse? (s : String) : Option Endpoint :=
  match readV4 s.toList with
  | some (e, []) => some e
  | _ =>
    match readV6 s.toList with
    | some (e, []) => some e
    | _ => none

def text (e : Endpoint) : String :=
  match e.ip with
  | .v4 ip => ip.text ++ ":" ++ Text.decimal e.service.toNat
  | .v6 ip =>
    let zone := if e.zone = 0 then "" else "%" ++ Text.decimal e.zone.toNat
    "[" ++ ip.text ++ zone ++ "]:" ++ Text.decimal e.service.toNat

end Endpoint

end DnsGate.Net
