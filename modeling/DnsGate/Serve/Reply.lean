import DnsGate.Serve.Question

/-!
Replies to whole requests: as messages, and as bytes in which the questions stand exactly as the
request has them.
-/

namespace DnsGate.Serve

/-! ## Messages -/

/-- The header of a reply: authoritative, recursion available, no error. -/
def replyHeader (h : Dns.Header) : Dns.Header :=
  { h.reply with authoritative := true, recursionAvailable := true }

/-- The reply to a message: its questions and the answers to all of them. -/
def serve (w : Wiring) (s : Surroundings) (now : UInt64) (m : Dns.Message) :
    Serving Dns.Message := do
  let answers ← resolveAll w s now m.questions
  return {
    header := { replyHeader m.header with checkingDisabled := false }
    questions := m.questions
    answers }

/-! ## Requests -/

/-- A request as it came in. -/
structure Request where
  header : Dns.Header
  questions : List Dns.Question
  /-- The bytes of the questions. -/
  raw : Bytes
deriving DecidableEq, Repr

/-- The length of a header on the wire. -/
def headerLength : Nat := 12

/-- Reads a request: a whole message, of which the header and the questions count. -/
def Request.decode (bs : Bytes) : Option Request := do
  let m ← Dns.Message.decode bs
  let (questions, cursor) ← (do
    let (_, count, _) ← Dns.Reader.header
    Dns.Reader.times Dns.Reader.question count : Dns.Reader (List Dns.Question)) ⟨bs, 0, bs⟩
  some ⟨m.header, questions, (bs.take cursor.pos).drop headerLength⟩

/-- A reply to a request. -/
structure Reply where
  header : Dns.Header
  answers : List Dns.Record
deriving Repr

/-- The bytes of records one after the other. -/
def recordsBytes : Dns.WriteState → List Dns.Record → Bytes
  | _, [] => []
  | s, r :: rs =>
    let (bs, s) := Dns.Writer.record r s
    bs ++ recordsBytes s rs

/-- The bytes of a reply.  Names in the answers are shared among answers only. -/
def Reply.encode (reply : Reply) (request : Request) : Bytes :=
  Dns.Writer.header reply.header request.questions.length reply.answers.length 0 0 ++ request.raw
    ++ recordsBytes ⟨headerLength + request.raw.length, []⟩ reply.answers

/-- The reply to a request. -/
def respond (w : Wiring) (s : Surroundings) (now : UInt64) (r : Request) : Serving Reply := do
  return ⟨replyHeader r.header, ← resolveAll w s now r.questions⟩

/-- What is told of a reply that could not be sent. -/
def Reply.unsent (r : Request) : Reply :=
  ⟨{ r.header.reply with rcode := Dns.Rcode.servFail }, []⟩

end DnsGate.Serve
