import DnsGate.Dns.Record

/-!
Messages: a header, the questions, and three sections of records.
-/

namespace DnsGate.Dns

/-! ## Response codes -/

/-- The twelve bits of a response code. -/
abbrev Rcode := Nat

namespace Rcode

def noError : Rcode := 0
def formErr : Rcode := 1
def servFail : Rcode := 2

/-- The word for a response code in messages. -/
def word : Rcode → String
  | 0 => "NOERROR"
  | 1 => "FORMERR"
  | 2 => "SERVFAIL"
  | 3 => "NXDOMAIN"
  | 4 => "NOTIMP"
  | 5 => "REFUSED"
  | _ => "UNKNOWN"

end Rcode

/-! ## Headers -/

/-- The flags and codes in the first bytes of a message. -/
structure Header where
  id : UInt16
  /-- Set in replies. -/
  response : Bool := false
  opcode : Nat := 0
  authoritative : Bool := false
  truncated : Bool := false
  recursionDesired : Bool := false
  recursionAvailable : Bool := false
  authenticData : Bool := false
  checkingDisabled : Bool := false
  rcode : Rcode := Rcode.noError
deriving DecidableEq, Repr

/-- What is asked: records of a type for a name. -/
structure Question where
  name : Name
  type : RType
  «class» : UInt16 := internet
deriving DecidableEq, Repr

/-- A message.  The pseudo record of the extension mechanism is not among the additional
records; the high bits of the response code that it carries are in the header. -/
structure Message where
  header : Header
  questions : List Question := []
  answers : List Record := []
  authority : List Record := []
  additional : List Record := []
deriving DecidableEq, Repr

/-- The header that a reply to a message with this header starts from. -/
def Header.reply (h : Header) : Header :=
  { id := h.id, response := true, opcode := h.opcode, recursionDesired := h.recursionDesired
    checkingDisabled := h.checkingDisabled }

end DnsGate.Dns
