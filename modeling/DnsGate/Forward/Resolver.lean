import DnsGate.Dns.Writer
import DnsGate.Forward.Attempt
import DnsGate.Forward.Ranking

/-!
Resolving a question by the forwarders of the settings.  They are tried in ranked order, all with
the same bytes, until one attempt succeeds.
-/

namespace DnsGate.Forward

/-- The forwarders and the time that an attempt on one may take, in milliseconds. -/
structure Resolver where
  servers : List String
  budget : Nat
deriving DecidableEq, Repr

/-- Tries one forwarder by its text. -/
def tryServer (w : World) (budget : Nat) (id : UInt16) (query : Bytes) (text : String)
    (traffic : Traffic) : Except Failure Outcome × Traffic :=
  match Forwarder.parse text with
  | .error cause => (.error (.forwarder cause), traffic)
  | .ok f => attempt w budget f id query traffic

/-- Tries forwarders in order until one succeeds. -/
def firstReply (w : World) (budget : Nat) (id : UInt16) (query : Bytes) :
    List String → Traffic → Option Dns.Message × Traffic
  | [], traffic => (none, traffic)
  | text :: rest, traffic =>
    match tryServer w budget id query text traffic with
    | (.ok outcome, traffic) => (some outcome.reply, traffic)
    | (.error _, traffic) => firstReply w budget id query rest traffic

/-- The bytes that pass a question on.  Whatever class it has, the internet is asked. -/
def queryBytes (id : UInt16) (q : Dns.Question) : Bytes :=
  { q with «class» := Dns.internet }.encode id

/-- The first reply to a question, if any forwarder gives one, and the traffic after it. -/
def Resolver.resolve (r : Resolver) (w : World) (q : Dns.Question) (traffic : Traffic) :
    Option Dns.Message × Traffic :=
  let id := w.questionId traffic
  firstReply w r.budget id (queryBytes id q) (ranked r.servers) traffic

end DnsGate.Forward
