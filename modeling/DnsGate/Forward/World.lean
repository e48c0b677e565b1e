import DnsGate.Binary.Utf8
import DnsGate.Forward.WebClient
import DnsGate.Net.Endpoint

/-!
The network as a forwarder is reached through it: what is put on the wire, what comes back, and
after how long.  A world may react to everything that was sent before, in any way.
-/

namespace DnsGate.Forward

/-- How a message is carried. -/
inductive Carrier where
  | datagram
  | stream
  | tls
  | https
deriving DecidableEq, Repr

def Carrier.word : Carrier → String
  | .datagram => "UDP"
  | .stream => "TCP"
  | .tls => "TLS"
  | .https => "HTTPS"

/-- Where a message goes: an endpoint, for TLS with the name that its certificate must bear, or a
URL. -/
inductive Target where
  | endpoint (e : Net.Endpoint)
  | named (e : Net.Endpoint) (host : String)
  | url (u : String)
deriving DecidableEq, Repr

/-- A message on the wire. -/
structure Sent where
  carrier : Carrier
  target : Target
  bytes : Bytes
deriving DecidableEq, Repr

/-- What comes back for a datagram or on a stream.  Delays are in milliseconds. -/
inductive Reaction where
  /-- The message cannot be delivered, or the connection breaks. -/
  | broken
  /-- Nothing ever comes. -/
  | silent
  /-- A datagram, or all bytes of a stream until it is closed. -/
  | bytes (delay : Nat) (bs : Bytes)
deriving DecidableEq, Repr

/-- What messages were sent so far, the last one first.  A message to a web server counts once,
when it is handed to the client; the requests to which redirects lead are the client's own. -/
abbrev Traffic := List Sent

/-- The surroundings of a resolver. -/
structure World where
  /-- What comes back for a datagram or on a stream, given what was sent before it. -/
  react : Traffic → Sent → Reaction
  /-- What the client meets with a message to a web server. -/
  visit : Traffic → Sent → Visit
  /-- The address of a host name and the delay of finding it. -/
  lookUp : Traffic → String → Option (Nat × Net.Ip)
  /-- Which hosts that are no addresses the TLS library takes as names of servers. -/
  serverName : String → Bool
  /-- The number that the next question gets. -/
  questionId : Traffic → UInt16

/-- A world without a network: no message is delivered and no name is found. -/
def World.unreachable : World where
  react _ _ := .broken
  visit _ _ := ⟨[], .broken⟩
  lookUp _ _ := none
  serverName _ := false
  questionId _ := 0

end DnsGate.Forward
