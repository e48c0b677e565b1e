import DnsGate.Binary.Width
import DnsGate.Forward.Resolver

/-!
Attempts by the clock.  The budget of an attempt is kept as a deadline: the instant at which it is
spent, computed when the attempt starts.  A datagram and a web request compute the instant at which
what is left is spent once more for themselves.  The clock counts seconds of 63 bits, and an instant
that lies beyond them is no failure of an attempt: to compute it ends the program.
-/

namespace DnsGate.Forward

/-! ## The clock -/

/-- A clock that never goes back: the milliseconds that it has counted, and how many more pass
before each of its next readings; none pass before later ones. -/
structure Clock where
  time : Nat := 0
  pauses : List Nat := []
deriving DecidableEq, Repr

/-- An instant that the clock cannot count to: so many milliseconds after a reading. -/
structure Overflow where
  time : Nat
  delay : Nat
deriving DecidableEq, Repr

/-- What the program says when it ends at an instant that cannot be computed. -/
def Overflow.message (_ : Overflow) : String := "overflow when adding duration to instant"

namespace Clock

/-- The first instant that the clock cannot count to. -/
def limit : Nat := Width.capacity 63 * 1000

/-- The clock when it is read next. -/
def read (c : Clock) : Clock :=
  match c.pauses with
  | [] => c
  | pause :: rest => ⟨c.time + pause, rest⟩

/-- The clock after a wait. -/
def wait (c : Clock) (delay : Nat) : Clock := { c with time := c.time + delay }

/-- The instant so many milliseconds after what the clock shows. -/
def after (c : Clock) (delay : Nat) : Except Overflow Nat :=
  if c.time + delay < limit then .ok (c.time + delay) else .error ⟨c.time, delay⟩

end Clock

/-! ## Computations by the clock -/

/-- A computation that sends messages and reads the clock, with the traffic so far. -/
abbrev Clocked (α : Type) := ExceptT Failure (StateT (Traffic × Clock) (Except Overflow)) α

namespace Clocked

/-- The time. -/
def now : Clocked Nat := fun (traffic, clock) => .ok (.ok clock.read.time, traffic, clock.read)

/-- The instant so many milliseconds from now. -/
def after (delay : Nat) : Clocked Nat := fun (traffic, clock) =>
  match clock.read.after delay with
  | .ok instant => .ok (.ok instant, traffic, clock.read)
  | .error overflow => .error overflow

/-- What is left of the time until a deadline; fails when there is nothing left. -/
def remaining (server : String) (deadline : Nat) : Clocked Nat := do
  let time ← now
  if deadline ≤ time then throw (.timeout server) else return deadline - time

/-- Does something within a budget of milliseconds.  When that is not enough, all of it is spent. -/
def within {α : Type} (budget : Nat) (a : Act α) : Clocked α := fun (traffic, clock) =>
  match a.run (traffic, budget) with
  | (.error (.timeout server), traffic, _) =>
    .ok (.error (.timeout server), traffic, clock.wait budget)
  | (result, traffic, left) => .ok (result, traffic, clock.wait (budget - left))

/-- Sends a message and takes the bytes of the reply, within a budget.  Messages on streams go
without a deadline of their own. -/
def send (w : World) (s : Sent) (budget : Nat) : Clocked Bytes := do
  if s.carrier = .datagram ∨ s.carrier = .https then
    let _ ← after budget
  within budget (Forward.send w s)

/-! ## Attempts -/

/-- Asks a forwarder once, as far as the time until the deadline goes. -/
def ask (w : World) (timeout : Nat) (f : Forwarder) (id : UInt16) (query : Bytes) :
    Clocked Outcome := do
  let deadline ← after timeout
  let first ← within (← remaining f.text deadline) (firstMessage w f query)
  let reply ← readReply id (← send w first (← remaining f.text deadline))
  let outcome ←
    if reply.header.truncated ∧ f.scheme = .udp then do
      let target ← within (← remaining f.text deadline) (endpointOf w f)
      let again ← readReply id
        (← send w ⟨.stream, .endpoint target, query⟩ (← remaining f.text deadline))
      pure ⟨Carrier.stream, again⟩
    else pure ⟨first.carrier, reply⟩
  if outcome.reply.header.rcode = Dns.Rcode.noError then return outcome
  else throw (.status f.text outcome.reply.header.rcode)

/-- Tries one forwarder by its text. -/
def tryServer (w : World) (timeout : Nat) (id : UInt16) (query : Bytes) (text : String) :
    Clocked Outcome :=
  match Forwarder.parse text with
  | .error cause => throw (.forwarder cause)
  | .ok f => ask w timeout f id query

/-- Tries forwarders in order until one succeeds. -/
def firstReply (w : World) (timeout : Nat) (id : UInt16) (query : Bytes) :
    List String → Traffic × Clock → Except Overflow (Option Dns.Message × Traffic × Clock)
  | [], st => .ok (none, st)
  | text :: rest, st => do
    match ← (tryServer w timeout id query text).run st with
    | (.ok outcome, st) => return (some outcome.reply, st)
    | (.error _, st) => firstReply w timeout id query rest st

end Clocked

/-- The first reply to a question by the clock, if any forwarder gives one. -/
def Resolver.resolveBy (r : Resolver) (w : World) (q : Dns.Question) (traffic : Traffic)
    (clock : Clock) : Except Overflow (Option Dns.Message × Traffic × Clock) :=
  let id := w.questionId traffic
  Clocked.firstReply w r.budget id (queryBytes id q) (ranked r.servers) (traffic, clock)

end DnsGate.Forward
