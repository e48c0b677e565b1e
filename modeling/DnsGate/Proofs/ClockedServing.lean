import DnsGate.Proofs.EvenClock
import DnsGate.Proofs.Serving
import DnsGate.Serve.Clocked

/-!
Answering by the clock.  The only instants that answers need are deadlines of forwarders
(`Clocked.Bounded`), so what a message can make the program fail to compute is what an attempt can
(`Clocked.bounded_deliver`).  By a clock that only goes on while something is waited for, a message
is answered as without a clock, unless a deadline cannot be computed (`Clocked.mirrors_deliver`).
-/

namespace DnsGate.Serve

open Forward (Clock Overflow Ends Evenly)

theorem askForwarders_run {w : Wiring} {s : Surroundings} {now : UInt64} {q : Dns.Question}
    (st : State) : (askForwarders w s now q).run st =
      st.take now q (w.resolver.resolve s.world q st.traffic).1
        (w.resolver.resolve s.world q st.traffic).2 := by
  rcases h : w.resolver.resolve s.world q st.traffic with ⟨_ | m, traffic⟩
  · exact askForwarders_none h
  · exact askForwarders_some h

namespace Clocked

/-! ## Runs -/

section Runs

variable {α β : Type} {c : Clocked α} {x : α} {o : Overflow} {st : State} {clock : Clock}
  {next : State × Clock}

theorem run_bind_ok (h : c.run (st, clock) = .ok (x, next)) (f : α → Clocked β) :
    (c >>= f).run (st, clock) = (f x).run next := by
  rw [StateT.run_bind, h]
  rfl

theorem run_bind_error (h : c.run (st, clock) = .error o) (f : α → Clocked β) :
    (c >>= f).run (st, clock) = .error o := by
  rw [StateT.run_bind, h]
  rfl

theorem run_askForwarders (w : Wiring) (s : Surroundings) (now : UInt64) (q : Dns.Question) :
    (askForwarders w s now q).run (st, clock) =
      match w.resolver.resolveBy s.world q st.traffic clock with
      | .ok (reply, traffic, clock) =>
        .ok ((st.take now q reply traffic).1, (st.take now q reply traffic).2, clock)
      | .error o => .error o := by
  show (w.resolver.resolveBy s.world q st.traffic clock >>= _) = _
  rcases w.resolver.resolveBy s.world q st.traffic clock with o | ⟨reply, traffic, clock'⟩ <;> rfl

theorem run_lookUp (w : Wiring) (s : Surroundings) (now : UInt64) (q : Dns.Question) :
    (lookUp w s now q).run (st, clock) =
      match st.cache.get now (domainOf q.name) q.type with
      | (some records, cache) => .ok (records, { st with cache }, clock)
      | (none, cache) => (askForwarders w s now q).run ({ st with cache }, clock) := rfl

end Runs

/-! ## What cannot be computed -/

section Bounded

variable {α β : Type} {w : Wiring}

/-- From any state and any time on, the clock does not go back, and an instant that cannot be
computed is a deadline of a forwarder. -/
def Bounded (w : Wiring) (c : Clocked α) : Prop :=
  ∀ st clock, Ends clock.time w.resolver.budget w.resolver.Usable (c.run (st, clock))

theorem bounded_lift (a : Serving α) : Bounded w (lift a) := fun _ _ => Nat.le_refl _

theorem bounded_pure (x : α) : Bounded w (pure x) := fun _ _ => Nat.le_refl _

theorem bounded_bind {c : Clocked α} {f : α → Clocked β} (hc : Bounded w c)
    (hf : ∀ x, Bounded w (f x)) : Bounded w (c >>= f) := by
  intro st clock
  have hfirst := hc st clock
  rcases hrun : c.run (st, clock) with o | ⟨x, st', clock'⟩
  · rw [hrun] at hfirst
    rw [run_bind_error hrun]
    exact hfirst
  · rw [hrun] at hfirst
    rw [run_bind_ok hrun]
    exact (hf x st' clock').mono hfirst id

theorem bounded_get {f : State × Clock → Clocked β} (hf : ∀ st, Bounded w (f st)) :
    Bounded w (get >>= f) := fun st clock => hf (st, clock) st clock

variable (w) (s : Surroundings) (now : UInt64)

theorem bounded_askForwarders (q : Dns.Question) : Bounded w (askForwarders w s now q) := by
  intro st clock
  have hends := Forward.Resolver.resolveBy_ends w.resolver s.world q st.traffic clock
  rw [run_askForwarders]
  rcases hrun : w.resolver.resolveBy s.world q st.traffic clock with o | ⟨reply, traffic, clock'⟩
  · rw [hrun] at hends
    exact hends
  · rw [hrun] at hends
    exact hends

theorem bounded_lookUp (q : Dns.Question) : Bounded w (lookUp w s now q) := by
  intro st clock
  rw [run_lookUp]
  rcases st.cache.get now (domainOf q.name) q.type with ⟨_ | records, cache⟩
  · exact bounded_askForwarders w s now q _ clock
  · exact Nat.le_refl _

theorem bounded_resolveQuestion (q : Dns.Question) : Bounded w (resolveQuestion w s now q) := by
  unfold resolveQuestion
  refine bounded_get fun st => ?_
  split
  · exact bounded_pure _
  · refine bounded_bind (bounded_lookUp w s now q) fun answers => bounded_get fun st => ?_
    split
    · exact bounded_bind (bounded_lift _) fun _ => bounded_pure _
    · exact bounded_pure _

theorem bounded_resolveAll (qs : List Dns.Question) : Bounded w (resolveAll w s now qs) := by
  induction qs with
  | nil => exact bounded_pure _
  | cons q qs ih =>
    refine bounded_bind (bounded_resolveQuestion w s now q) fun first => ?_
    exact bounded_bind ih fun rest => bounded_pure _

theorem bounded_deliver (limit : Option Nat) (bs : Bytes) :
    Bounded w (deliver w s now limit bs) := by
  unfold deliver
  cases Delivery.of bs with
  | drop => exact bounded_pure _
  | refuse h => exact bounded_pure _
  | accept request => exact bounded_bind (bounded_resolveAll w s now _) fun _ => bounded_pure _

end Bounded

/-- A question that needs a forwarder ends the program if the first deadline cannot be computed. -/
theorem resolveQuestion_late {w : Wiring} {s : Surroundings} {now : UInt64} {q : Dns.Question}
    {st : State} {clock : Clock} (hblocks : st.live.blocks (domainOf q.name) = false)
    (hmiss : (st.cache.get now (domainOf q.name) q.type).1 = none) (husable : w.resolver.Usable)
    (hlate : Clock.limit ≤ clock.read.time + w.resolver.budget) :
    (resolveQuestion w s now q).run (st, clock) = .error ⟨clock.read.time, w.resolver.budget⟩ := by
  have hlookUp : (lookUp w s now q).run (st, clock) =
      .error ⟨clock.read.time, w.resolver.budget⟩ := by
    rw [run_lookUp]
    rcases hget : st.cache.get now (domainOf q.name) q.type with ⟨_ | records, cache⟩
    · dsimp only
      rw [run_askForwarders, Forward.Resolver.resolveBy_late husable hlate]
    · rw [hget] at hmiss
      cases hmiss
  unfold resolveQuestion
  show (if st.live.blocks (domainOf q.name) = true then pure [sinkhole q.name]
    else lookUp w s now q >>= _ : Clocked (List Dns.Record)).run (st, clock) = _
  rw [hblocks, if_neg Bool.false_ne_true]
  exact run_bind_error hlookUp _

/-! ## Without a clock -/

section Mirrors

variable {α β : Type}

/-- By an even clock, a computation does what another does without a clock, unless it ends the
program. -/
def Mirrors (c : Clocked α) (a : Serving α) : Prop :=
  ∀ st time, Evenly (c.run (st, .even time)) (a.run st)

theorem mirrors_lift (a : Serving α) : Mirrors (lift a) a := fun _ time => .inr ⟨time, rfl⟩

theorem mirrors_pure (x : α) : Mirrors (pure x) (pure x) := fun _ time => .inr ⟨time, rfl⟩

theorem mirrors_bind {c : Clocked α} {a : Serving α} {g : α → Clocked β} {f : α → Serving β}
    (h : Mirrors c a) (hnext : ∀ x, Mirrors (g x) (f x)) : Mirrors (c >>= g) (a >>= f) := by
  intro st time
  rcases h st time with ⟨o, hrun⟩ | ⟨time', hrun⟩
  · exact .inl ⟨o, run_bind_error hrun g⟩
  · rw [run_bind_ok hrun]
    exact hnext _ _ time'

theorem mirrors_get {g : State × Clock → Clocked β} {f : State → Serving β}
    (h : ∀ st clock, Mirrors (g (st, clock)) (f st)) : Mirrors (get >>= g) (get >>= f) :=
  fun st time => h st (.even time) st time

variable (w : Wiring) (s : Surroundings) (now : UInt64)

theorem mirrors_askForwarders (q : Dns.Question) :
    Mirrors (askForwarders w s now q) (Serve.askForwarders w s now q) := by
  intro st time
  rw [run_askForwarders, Serve.askForwarders_run]
  rcases Forward.Resolver.resolveBy_even w.resolver s.world q st.traffic time with
    ⟨o, hrun⟩ | ⟨time', hrun⟩
  · rw [hrun]
    exact .inl ⟨o, rfl⟩
  · rw [hrun]
    exact .inr ⟨time', rfl⟩

theorem mirrors_lookUp (q : Dns.Question) :
    Mirrors (lookUp w s now q) (Serve.lookUp w s now q) := by
  intro st time
  rw [run_lookUp]
  rcases hget : st.cache.get now (domainOf q.name) q.type with ⟨_ | records, cache⟩
  · rw [Serve.lookUp_miss hget]
    exact mirrors_askForwarders w s now q _ time
  · rw [Serve.lookUp_hit hget]
    exact .inr ⟨time, rfl⟩

theorem mirrors_resolveQuestion (q : Dns.Question) :
    Mirrors (resolveQuestion w s now q) (Serve.resolveQuestion w s now q) := by
  unfold resolveQuestion Serve.resolveQuestion
  refine mirrors_get fun st clock => ?_
  dsimp only
  split
  · exact mirrors_pure _
  · refine mirrors_bind (mirrors_lookUp w s now q) fun answers => mirrors_get fun st clock => ?_
    dsimp only
    split
    · exact mirrors_bind (mirrors_lift _) fun _ => mirrors_pure _
    · exact mirrors_pure _

theorem mirrors_resolveAll (qs : List Dns.Question) :
    Mirrors (resolveAll w s now qs) (Serve.resolveAll w s now qs) := by
  induction qs with
  | nil => exact mirrors_pure _
  | cons q qs ih =>
    refine mirrors_bind (mirrors_resolveQuestion w s now q) fun first => ?_
    exact mirrors_bind ih fun rest => mirrors_pure _

/-- By an even clock, a message is answered as without a clock, unless a deadline cannot be
computed. -/
theorem mirrors_deliver (limit : Option Nat) (bs : Bytes) :
    Mirrors (deliver w s now limit bs) (Serve.deliver w s now limit bs) := by
  unfold deliver Serve.deliver
  cases Delivery.of bs with
  | drop => exact mirrors_pure _
  | refuse h => exact mirrors_pure _
  | accept request =>
    unfold respond
    simp only [bind_assoc]
    exact mirrors_bind (mirrors_resolveAll w s now _) fun _ => mirrors_pure _

end Mirrors

end Clocked

end DnsGate.Serve
