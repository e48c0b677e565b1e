import DnsGate.Serve.Reply

/-!
What stands between the network and the replies.  A message that is a reply itself, or is too short
for a header, is dropped; one that cannot be read is answered by a header that says so.  A reply
that is too long for a datagram ends with the last answer that fits.
-/

namespace DnsGate.Serve

/-! ## Length -/

/-- The most bytes of a datagram. -/
def datagramLimit : Nat := 4096

/-- The first records that fit into so many bytes. -/
def fitting : Nat → Dns.WriteState → List Dns.Record → List Dns.Record
  | _, _, [] => []
  | room, s, r :: rs =>
    let (bs, s) := Dns.Writer.record r s
    if bs.length ≤ room then r :: fitting (room - bs.length) s rs else []

/-- A reply with the answers that fit into so many bytes.  It is marked if some do not. -/
def Reply.cut (reply : Reply) (limit : Nat) (request : Request) : Reply :=
  let start := headerLength + request.raw.length
  let kept := fitting (limit - start) ⟨start, []⟩ reply.answers
  if kept.length = reply.answers.length then reply
  else ⟨{ reply.header with truncated := true }, kept⟩

/-! ## Messages -/

/-- What becomes of a message that comes in. -/
inductive Delivery where
  | drop
  /-- It cannot be read; its header can. -/
  | refuse (header : Dns.Header)
  | accept (request : Request)
deriving DecidableEq, Repr

/-- The header at the start of a message. -/
def headerOf? (bs : Bytes) : Option Dns.Header :=
  (Dns.Reader.header ⟨bs, 0, bs⟩).map fun ((h, _), _) => h

/-- What becomes of a message. -/
def Delivery.of (bs : Bytes) : Delivery :=
  match headerOf? bs with
  | none => .drop
  | some h =>
    if h.response then .drop
    else match Request.decode bs with
      | some request => .accept request
      | none => .refuse h

/-- The header that says that a message cannot be read. -/
def refusal (h : Dns.Header) : Bytes :=
  Dns.Writer.header { h.reply with rcode := Dns.Rcode.formErr } 0 0 0 0

/-- The bytes that are sent back for a message, if any; `limit` is the most of them. -/
def deliver (w : Wiring) (s : Surroundings) (now : UInt64) (limit : Option Nat) (bs : Bytes) :
    Serving (Option Bytes) := do
  match Delivery.of bs with
  | .drop => return none
  | .refuse h => return some (refusal h)
  | .accept request =>
    let reply ← respond w s now request
    return some (((limit.map (reply.cut · request)).getD reply).encode request)

/-! ## Endpoints -/

/-- The endpoints that the server listens on: those that can be bound.  There must be one. -/
def listening? (binds : Net.Endpoint → Bool) (endpoints : List Net.Endpoint) :
    Option (List Net.Endpoint) :=
  let bound := endpoints.filter binds
  if bound.isEmpty then none else some bound

end DnsGate.Serve
