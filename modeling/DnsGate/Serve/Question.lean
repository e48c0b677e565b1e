import DnsGate.Cache.Store
import DnsGate.Forward.Resolver
import DnsGate.IpSet.Call
import DnsGate.Serve.Live

/-!
Answering one question.  A blocked name gets the address `0.0.0.0` and nothing else happens.  Any
other name is answered from the cache, or else by a forwarder, whose answers are then kept.  The
addresses in the answers for a name that a rule covers are added to the IP sets.
-/

namespace DnsGate.Serve

/-! ## State -/

/-- What stays the same while the server runs. -/
structure Wiring where
  resolver : Forward.Resolver
  ipv4Set : Option String
  ipv6Set : Option String
deriving DecidableEq, Repr

/-- What the server cannot foresee: how the network and the IP-set tool behave. -/
structure Surroundings where
  world : Forward.World
  tool : IpSet.Tool

/-- What changes while the server runs.  Calls of the tool and what was sent are kept with the last
one first. -/
structure State where
  live : Live
  cache : Cache.Store := {}
  traffic : Forward.Traffic := []
  calls : List IpSet.Call := []
  /-- The calls that failed, and why. -/
  failures : List (IpSet.Call × IpSet.Failure) := []

/-- Computations on the state. -/
abbrev Serving := StateM State

/-! ## Answers -/

/-- The time to live of the answer for blocked names, in seconds. -/
def sinkholeTtl : UInt32 := 3600

/-- The answer for a blocked name. -/
def sinkhole (name : Dns.Name) : Dns.Record := Dns.Record.ofIpv4 name sinkholeTtl ⟨0, 0, 0, 0⟩

/-- A name as rules, blocklists and the cache know it. -/
def domainOf (name : Dns.Name) : String := Rules.nameForm name.ascii

/-- The call that adds the address of a record to the set of its family, if there is one. -/
def Wiring.callFor? (w : Wiring) (r : Dns.Record) : Option IpSet.Call :=
  match r.address? with
  | some (.v4 ip) => w.ipv4Set.map fun set => .add set (.v4 ip) r.ttl.toNat
  | some (.v6 ip) => w.ipv6Set.map fun set => .add set (.v6 ip) r.ttl.toNat
  | none => none

/-- Makes a call.  A failure is noted. -/
def callTool (s : Surroundings) (call : IpSet.Call) : Serving Unit := modify fun st =>
  { st with
    calls := call :: st.calls
    failures := match s.tool st.calls call with
      | some failure => (call, failure) :: st.failures
      | none => st.failures }

/-- Adds the addresses of answers to the sets, in order. -/
def feed (w : Wiring) (s : Surroundings) : List Dns.Record → Serving Unit
  | [] => return
  | r :: rs => do
    match w.callFor? r with
    | some call => callTool s call
    | none => pure ()
    feed w s rs

/-- Asks the forwarders and keeps their answers. -/
def askForwarders (w : Wiring) (s : Surroundings) (now : UInt64) (q : Dns.Question) :
    Serving (List Dns.Record) := fun st =>
  match w.resolver.resolve s.world q st.traffic with
  | (none, traffic) => ([], { st with traffic })
  | (some m, traffic) =>
    (m.answers, { st with
      traffic
      cache := st.cache.storeAnswers now (domainOf q.name) q.type m.answers })

/-- Answers from the cache, or else by the forwarders. -/
def lookUp (w : Wiring) (s : Surroundings) (now : UInt64) (q : Dns.Question) :
    Serving (List Dns.Record) := fun st =>
  match st.cache.get now (domainOf q.name) q.type with
  | (some records, cache) => (records, { st with cache })
  | (none, cache) => askForwarders w s now q { st with cache }

/-- The answers to a question at a time. -/
def resolveQuestion (w : Wiring) (s : Surroundings) (now : UInt64) (q : Dns.Question) :
    Serving (List Dns.Record) := do
  if (← get).live.blocks (domainOf q.name) then return [sinkhole q.name]
  let answers ← lookUp w s now q
  if (← get).live.rules.covers (domainOf q.name) then feed w s answers
  return answers

/-- The answers to questions, one question after the other. -/
def resolveAll (w : Wiring) (s : Surroundings) (now : UInt64) :
    List Dns.Question → Serving (List Dns.Record)
  | [] => return []
  | q :: qs => do
    let first ← resolveQuestion w s now q
    return first ++ (← resolveAll w s now qs)

end DnsGate.Serve
