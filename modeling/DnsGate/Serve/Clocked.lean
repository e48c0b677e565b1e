import DnsGate.Forward.Deadline
import DnsGate.Serve.Delivery

/-!
Answering by the clock, as the running server does.  Only forwarders need it: names that are
blocked and answers from the cache do without.  An instant that cannot be computed ends the program,
whatever it was asked.
-/

namespace DnsGate.Serve

open Forward (Clock Overflow)

/-- The answers that a reply of the forwarders gives, and the state that keeps them. -/
def State.take (st : State) (now : UInt64) (q : Dns.Question) (reply : Option Dns.Message)
    (traffic : Forward.Traffic) : List Dns.Record × State :=
  match reply with
  | none => ([], { st with traffic })
  | some m =>
    (m.answers, { st with
      traffic
      cache := st.cache.storeAnswers now (domainOf q.name) q.type m.answers })

/-- Computations on the state that read the clock. -/
abbrev Clocked (α : Type) := StateT (State × Clock) (Except Overflow) α

namespace Clocked

/-- What does not read the clock. -/
def lift {α : Type} (a : Serving α) : Clocked α := fun (st, clock) =>
  let (x, st) := a.run st
  .ok (x, st, clock)

/-- Asks the forwarders and keeps their answers. -/
def askForwarders (w : Wiring) (s : Surroundings) (now : UInt64) (q : Dns.Question) :
    Clocked (List Dns.Record) := fun (st, clock) => do
  let (reply, traffic, clock) ← w.resolver.resolveBy s.world q st.traffic clock
  let (answers, st) := st.take now q reply traffic
  return (answers, st, clock)

/-- Answers from the cache, or else by the forwarders. -/
def lookUp (w : Wiring) (s : Surroundings) (now : UInt64) (q : Dns.Question) :
    Clocked (List Dns.Record) := fun (st, clock) =>
  match st.cache.get now (domainOf q.name) q.type with
  | (some records, cache) => .ok (records, { st with cache }, clock)
  | (none, cache) => (askForwarders w s now q).run ({ st with cache }, clock)

/-- The answers to a question at a time. -/
def resolveQuestion (w : Wiring) (s : Surroundings) (now : UInt64) (q : Dns.Question) :
    Clocked (List Dns.Record) := do
  if (← get).1.live.blocks (domainOf q.name) then return [sinkhole q.name]
  let answers ← lookUp w s now q
  if (← get).1.live.rules.covers (domainOf q.name) then lift (feed w s answers)
  return answers

/-- The answers to questions, one question after the other. -/
def resolveAll (w : Wiring) (s : Surroundings) (now : UInt64) :
    List Dns.Question → Clocked (List Dns.Record)
  | [] => return []
  | q :: qs => do
    let first ← resolveQuestion w s now q
    return first ++ (← resolveAll w s now qs)

/-- The bytes that are sent back for a message, if any; `limit` is the most of them. -/
def deliver (w : Wiring) (s : Surroundings) (now : UInt64) (limit : Option Nat) (bs : Bytes) :
    Clocked (Option Bytes) := do
  match Delivery.of bs with
  | .drop => return none
  | .refuse h => return some (refusal h)
  | .accept request =>
    let reply : Reply := ⟨replyHeader request.header, ← resolveAll w s now request.questions⟩
    return some (((limit.map (reply.cut · request)).getD reply).encode request)

end Clocked

end DnsGate.Serve
