import DnsGate.Program.App
import DnsGate.Proofs.Fallback
import DnsGate.Proofs.Serving

/-!
Courses of a server: what becomes of it, from an empty cache on, while questions are answered, the
clock moves forwards or back, and rules and blocklist change.  A course remembers the messages that
forwarders have answered, so that statements about what the cache holds can speak of them.
-/

namespace DnsGate.Serve

/-! ## Courses -/

/-- A message that a forwarder answered to a question at a time. -/
structure Heard where
  time : UInt64
  question : Dns.Question
  message : Dns.Message

/-- A server at a time, and the messages heard so far, the last one first. -/
structure Course where
  now : UInt64
  state : State
  heard : List Heard := []

/-- What happens to a server. -/
inductive Event where
  /-- A question is asked, in surroundings that may behave in any way. -/
  | ask (s : Surroundings) (q : Dns.Question) (named : q.name.WellFormed)
  /-- The clock is set, to any time. -/
  | clock (now : UInt64)
  /-- Rules are edited, or the blocklist is refreshed: what is live changes, in any way. -/
  | change (live : Live)

namespace Course

/-- Whether a question is passed on to the forwarders. -/
def asks (c : Course) (q : Dns.Question) : Bool :=
  !c.state.live.blocks (domainOf q.name) &&
    (c.state.cache.get c.now (domainOf q.name) q.type).1.isNone

/-- The message that a forwarder answers to a question, if any does. -/
def hears (c : Course) (w : Wiring) (s : Surroundings) (q : Dns.Question) : Option Heard :=
  if c.asks q then
    (w.resolver.resolve s.world q c.state.traffic).1.map fun m => ⟨c.now, q, m⟩
  else none

/-- The course after an event. -/
def step (w : Wiring) (c : Course) : Event → Course
  | .ask s q _ => { c with
      state := ((resolveQuestion w s c.now q).run c.state).2
      heard := (c.hears w s q).toList ++ c.heard }
  | .clock now => { c with now }
  | .change live => { c with state := { c.state with live } }

/-- The courses of a server that starts with an empty cache. -/
inductive Reachable (w : Wiring) : Course → Prop where
  | start (now : UInt64) (st : State) : Reachable w { now, state := { st with cache := {} } }
  | step {c : Course} (e : Event) (h : Reachable w c) : Reachable w (c.step w e)

/-! ## Questions -/

section Questions

variable {w : Wiring} {s : Surroundings} {c : Course} {q : Dns.Question}
  (named : q.name.WellFormed)

theorem asks_eq_false_of_blocked (h : c.state.live.blocks (domainOf q.name) = true) :
    c.asks q = false := by
  rw [asks, h]
  rfl

theorem asks_eq {answer : Option (List Dns.Record)} {cache : Cache.Store}
    (h : c.state.live.blocks (domainOf q.name) = false)
    (hget : c.state.cache.get c.now (domainOf q.name) q.type = (answer, cache)) :
    c.asks q = answer.isNone := by
  rw [asks, h, hget]
  rfl

theorem step_ask :
    c.step w (.ask s q named) = { c with
      state := ((resolveQuestion w s c.now q).run c.state).2
      heard := (c.hears w s q).toList ++ c.heard } := rfl

theorem step_blocked (h : c.state.live.blocks (domainOf q.name) = true) :
    c.step w (.ask s q named) = c := by
  rw [step_ask named, hears, resolveQuestion_blocked h, asks_eq_false_of_blocked h]
  rfl

/-- A question that the cache answers leaves the entries of the cache as they are. -/
theorem step_hit {records : List Dns.Record} {cache : Cache.Store}
    (h : c.state.live.blocks (domainOf q.name) = false)
    (hget : c.state.cache.get c.now (domainOf q.name) q.type = (some records, cache)) :
    (c.step w (.ask s q named)).state.cache = cache ∧
      (c.step w (.ask s q named)).heard = c.heard := by
  obtain ⟨calls, failures, hrun⟩ := resolveQuestion_hit (w := w) (s := s) h hget
  rw [step_ask, hears, hrun, asks_eq h hget]
  exact ⟨rfl, rfl⟩

theorem step_unanswered {cache : Cache.Store} {traffic : Forward.Traffic}
    (h : c.state.live.blocks (domainOf q.name) = false)
    (hget : c.state.cache.get c.now (domainOf q.name) q.type = (none, cache))
    (hask : w.resolver.resolve s.world q c.state.traffic = (none, traffic)) :
    (c.step w (.ask s q named)).state.cache = cache ∧
      (c.step w (.ask s q named)).heard = c.heard := by
  obtain ⟨calls, failures, hrun⟩ := resolveQuestion_unanswered h hget hask
  rw [step_ask, hears, hrun, asks_eq h hget, hask]
  exact ⟨rfl, rfl⟩

theorem step_answered {cache : Cache.Store} {m : Dns.Message} {traffic : Forward.Traffic}
    (h : c.state.live.blocks (domainOf q.name) = false)
    (hget : c.state.cache.get c.now (domainOf q.name) q.type = (none, cache))
    (hask : w.resolver.resolve s.world q c.state.traffic = (some m, traffic)) :
    (c.step w (.ask s q named)).state.cache =
        cache.storeAnswers c.now (domainOf q.name) q.type m.answers ∧
      (c.step w (.ask s q named)).heard = ⟨c.now, q, m⟩ :: c.heard := by
  obtain ⟨calls, failures, hrun⟩ := resolveQuestion_answered h hget hask
  rw [step_ask, hears, hrun, asks_eq h hget, hask]
  exact ⟨rfl, rfl⟩

variable (s) in
/-- An answer for which nothing was sent is one that no forwarder was asked for. -/
theorem asks_eq_false_of_unsent (h : c.state.live.blocks (domainOf q.name) = false)
    (hsome : ((resolveQuestion w s c.now q).run c.state).1 ≠ [])
    (hunsent : ((resolveQuestion w s c.now q).run c.state).2.traffic = c.state.traffic) :
    c.asks q = false := by
  rcases hget : c.state.cache.get c.now (domainOf q.name) q.type with ⟨_ | records, cache⟩
  · rcases hask : w.resolver.resolve s.world q c.state.traffic with ⟨_ | m, traffic⟩
    · obtain ⟨calls, failures, hrun⟩ := resolveQuestion_unanswered h hget hask
      rw [hrun] at hsome
      exact absurd rfl hsome
    · obtain ⟨calls, failures, hrun⟩ := resolveQuestion_answered h hget hask
      obtain ⟨-, -, hlen⟩ := Forward.resolve_some hask
      rw [hrun] at hunsent
      rw [show traffic = c.state.traffic from hunsent] at hlen
      exact absurd hlen (Nat.lt_irrefl _)
  · rw [asks_eq h hget]
    rfl

end Questions

end Course

end DnsGate.Serve

namespace DnsGate.Program

/-! ## Changes of what is live -/

/-- A request of the management interface changes what is live, and nothing else of the server. -/
theorem execute_serve (st : State) (p : Plan) (r : Admin.Request) :
    ∃ live, (st.execute p r).2.serve = { st.serve with live } :=
  ⟨_, rfl⟩

/-- So does a refresh. -/
theorem refresh_serve (st : State) (web : String → Blocklist.WebReply) (now : Int) :
    ∃ live, (st.refresh web now).2.serve = { st.serve with live } := by
  unfold State.refresh
  cases st.serve.live.blocklist with
  | none => exact ⟨st.serve.live, rfl⟩
  | some m => exact ⟨_, rfl⟩

end DnsGate.Program
