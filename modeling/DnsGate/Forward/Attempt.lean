import DnsGate.Dns.Reader
import DnsGate.Forward.Forwarder
import DnsGate.Forward.Framing
import DnsGate.Forward.World

/-!
One attempt on one forwarder.  The look-up of its host, the exchange and the repetition of a
truncated datagram over a stream share one budget of time.  An attempt succeeds with the reply
that it comes down to, if that reply answers the question without error.  A message to a web server
is handed to the web client, which may give up before the budget is spent and follows redirects by
itself; the reply is then that of the server to which they lead.
-/

namespace DnsGate.Forward

/-! ## Failures -/

/-- Why an attempt fails. -/
inductive Failure where
  | forwarder (cause : Forwarder.ParseError)
  /-- The host has no address. -/
  | unknownHost (host : String)
  /-- The host is no name that the certificate of a server can bear. -/
  | serverName (host : String)
  /-- The message was not delivered, or the connection broke. -/
  | connection (carrier : Carrier)
  /-- The message does not fit into a frame, or the reply breaks off. -/
  | stream (cause : StreamError)
  | httpStatus (url : String) (status : Nat)
  | timeout (server : String)
  /-- The reply is no message. -/
  | malformed
  | idMismatch (found expected : UInt16)
  | status (server : String) (rcode : Dns.Rcode)
deriving DecidableEq, Repr

namespace Failure

/-- The part of a failure's message that names its kind, and the rest. -/
def parts : Failure → String × String
  | .forwarder cause => ("Invalid upstream server", cause.message)
  | .unknownHost host => ("Transport error", "No address found for " ++ host)
  | .serverName host =>
    ("Transport error", "Invalid TLS server name " ++ host ++ ": invalid dns name")
  | .connection carrier => ("Transport error", carrier.word ++ " exchange failed")
  | .stream cause => ("Transport error", cause.message)
  | .httpStatus url code =>
    ("Transport error", "DoH server " ++ url ++ " returned HTTP " ++ Text.decimal code)
  | .timeout server => ("Transport timeout", server)
  | .malformed => ("Invalid DNS response", "Failed to parse DNS response")
  | .idMismatch found expected =>
    ("Invalid DNS response", "Response ID " ++ Text.decimal found.toNat
      ++ " does not match query ID " ++ Text.decimal expected.toNat)
  | .status server rcode => ("Upstream " ++ server ++ " answered " ++ rcode.word, "")

def message (f : Failure) : String :=
  match f.parts with
  | (kind, "") => kind
  | (kind, rest) => kind ++ ": " ++ rest

end Failure

/-! ## Replies -/

/-- Reads a reply and checks that it answers the question with the given number. -/
def readReply (id : UInt16) (bs : Bytes) : Except Failure Dns.Message :=
  match Dns.Message.decode bs with
  | none => .error .malformed
  | some m =>
    if m.header.id = id then .ok m else .error (.idMismatch m.header.id id)

/-- The longest datagram that is taken as a reply; the rest of a longer one is cut off. -/
def maxDatagram : Nat := 4096

/-! ## The exchange -/

/-- A computation that sends messages and spends time: it starts from the traffic so far and the
milliseconds left. -/
abbrev Act (α : Type) := ExceptT Failure (StateM (Traffic × Nat)) α

namespace Act

/-- Fails when no time is left. -/
def needTime (server : String) : Act Unit := do
  if (← get).2 = 0 then throw (.timeout server)

/-- Spends time; fails when there is less of it. -/
def spend (server : String) (delay : Nat) : Act Unit := do
  let (traffic, left) ← get
  if left < delay then
    set (traffic, 0)
    throw (.timeout server)
  set (traffic, left - delay)

end Act

open Act in
/-- The endpoint of a forwarder.  A host that is no address is looked up. -/
def endpointOf (w : World) (f : Forwarder) : Act Net.Endpoint := do
  match Net.Ip.parse? f.host with
  | some ip => return ⟨ip, 0, UInt16.ofNat f.service⟩
  | none =>
    match w.lookUp (← get).1 f.host with
    | none => throw (.unknownHost f.host)
    | some (delay, ip) =>
      spend f.text delay
      return ⟨ip, 0, UInt16.ofNat f.service⟩

/-- What a message to a target is called in a timeout. -/
def Sent.timeoutName (s : Sent) : String :=
  match s.carrier, s.target with
  | .datagram, .endpoint e => "udp://" ++ e.text
  | .stream, .endpoint e => "tcp://" ++ e.text
  | _, .endpoint e => e.text
  | _, .named _ host => "tls://" ++ host
  | _, .url u => u

/-- A message goes in a frame. -/
abbrev Sent.Framed (s : Sent) : Prop := s.carrier = .stream ∨ s.carrier = .tls

/-- The failure of a message to a host that no certificate can bear as a name.  An address always is
one. -/
def Sent.misnamed? (w : World) (s : Sent) : Option Failure :=
  match s.target with
  | .named _ host =>
    if (Net.Ip.parse? host).isSome ∨ w.serverName host then none else some (.serverName host)
  | _ => none

/-- The failure of a message that does not fit into its frame. -/
def Sent.tooLong? (s : Sent) : Option Failure :=
  if s.Framed ∧ frame? s.bytes = none then some (.stream .tooLong) else none

/-- Why a message is not put on the wire at all. -/
def Sent.refusal? (w : World) (s : Sent) : Option Failure := (s.misnamed? w).or s.tooLong?

open Act in
/-- Takes what comes back for a datagram or on a stream.  A stream reply is the message in its first
frame. -/
def receive (s : Sent) : Reaction → Act Bytes
  | .broken => throw (.connection s.carrier)
  | .silent => throw (.timeout s.timeoutName)
  | .bytes delay bs => do
    spend s.timeoutName delay
    if s.Framed then
      match (exchange s.bytes bs).2 with
      | .ok reply => return reply
      | .error cause => throw (.stream cause)
    else return bs.take maxDatagram

/-- What a message to a web server comes to, when so much time was left for it.  An answer counts
only with status 200.  If the client gives up before its caller's time is over, its request has
failed; otherwise the time is over. -/
def Arrival.reply (url : String) (left : Nat) : Arrival → Except Failure Bytes
  | .broken => .error (.connection .https)
  | .late => .error (if left ≤ webLimit then .timeout url else .connection .https)
  | .answer status body => if status = 200 then .ok body else .error (.httpStatus url status)

/-- Has the client carry a message to a web server. -/
def fetch (url : String) (message : Bytes) (visit : Visit) : Act Bytes := do
  let (traffic, left) ← get
  let trip := visit.trip left ⟨url, some message⟩
  set (traffic, left - trip.time)
  trip.arrival.reply url left

/-- Takes what comes back for a message after some traffic. -/
def awaitReply (w : World) (traffic : Traffic) (s : Sent) : Act Bytes :=
  match s.target with
  | .url u => fetch u s.bytes (w.visit traffic s)
  | _ => receive s (w.react traffic s)

/-- Sends a message and takes the bytes of the reply. -/
def send (w : World) (s : Sent) : Act Bytes := do
  match s.refusal? w with
  | some cause => throw cause
  | none =>
    let (traffic, left) ← get
    set (s :: traffic, left)
    awaitReply w traffic s

/-- The message that a forwarder's scheme makes of a question. -/
def firstMessage (w : World) (f : Forwarder) (query : Bytes) : Act Sent := do
  match f.scheme with
  | .udp => return ⟨.datagram, .endpoint (← endpointOf w f), query⟩
  | .tcp => return ⟨.stream, .endpoint (← endpointOf w f), query⟩
  | .tls => return ⟨.tls, .named (← endpointOf w f) f.host, query⟩
  | .https => return ⟨.https, .url f.url, query⟩

/-- What an attempt comes down to: the reply and how it was carried. -/
structure Outcome where
  carrier : Carrier
  reply : Dns.Message
deriving Repr

open Act in
/-- Asks a forwarder once.  A truncated datagram is asked for again over a stream, whose reply
counts instead. -/
def ask (w : World) (f : Forwarder) (id : UInt16) (query : Bytes) : Act Outcome := do
  needTime f.text
  let first ← firstMessage w f query
  needTime f.text
  let reply ← readReply id (← send w first)
  let outcome ←
    if reply.header.truncated ∧ f.scheme = .udp then do
      needTime f.text
      let target ← endpointOf w f
      needTime f.text
      let again ← readReply id (← send w ⟨.stream, .endpoint target, query⟩)
      pure ⟨Carrier.stream, again⟩
    else pure ⟨first.carrier, reply⟩
  if outcome.reply.header.rcode = Dns.Rcode.noError then return outcome
  else throw (.status f.text outcome.reply.header.rcode)

/-- Asks a forwarder within a budget of milliseconds: the outcome and the traffic after it. -/
def attempt (w : World) (budget : Nat) (f : Forwarder) (id : UInt16) (query : Bytes)
    (traffic : Traffic) : Except Failure Outcome × Traffic :=
  let (result, (traffic, _)) := (ask w f id query).run (traffic, budget)
  (result, traffic)

end DnsGate.Forward
