import DnsGate.Proofs.Deadlines

/-!
Attempts by a clock that only goes on while something is waited for.  Then what is left until a
deadline is what a budget that was started with it has left, so a computation by the clock does what
the computation with the budget does (`Clocked.Follows`).  Main statements: an attempt by such a
clock is the attempt with its timeout as the budget, and a question is resolved as without a clock,
unless a deadline cannot be computed (`Clocked.ask_even`, `Resolver.resolveBy_even`).
-/

namespace DnsGate.Forward

/-! ## Computations that only spend -/

namespace Act

variable {α β : Type}

/-- A computation has no more time left than it was given. -/
def Thrifty (a : Act α) : Prop := ∀ traffic left, (a.run (traffic, left)).2.2 ≤ left

theorem thrifty_lift (e : Except Failure α) : Thrifty (liftM e : Act α) := by
  intro traffic left
  simp only [run_liftM, Nat.le_refl]

theorem thrifty_pure (x : α) : Thrifty (pure x : Act α) := thrifty_lift (.ok x)

theorem thrifty_throw (f : Failure) : Thrifty (throw f : Act α) := thrifty_lift (.error f)

theorem thrifty_bind {a : Act α} {f : α → Act β} (ha : a.Thrifty) (hf : ∀ x, (f x).Thrifty) :
    (a >>= f).Thrifty := by
  intro traffic left
  have hfirst := ha traffic left
  rw [run_bind]
  rcases hrun : a.run (traffic, left) with ⟨e | x, traffic', left'⟩
  · rw [hrun] at hfirst
    exact hfirst
  · rw [hrun] at hfirst
    exact Nat.le_trans (hf x traffic' left') hfirst

/-- Reading the state alone takes no time. -/
theorem thrifty_get {f : Traffic × Nat → Act β} (hf : ∀ st, (f st).Thrifty) :
    (get >>= f : Act β).Thrifty := fun traffic left => hf (traffic, left) traffic left

/-- Leaving no more time than there was. -/
theorem thrifty_setLeft {left' : Traffic × Nat → Nat} {f : Traffic × Nat → Act β}
    (hless : ∀ st, left' st ≤ st.2) (hf : ∀ st, (f st).Thrifty) :
    (get >>= fun st => set (st.1, left' st) >>= fun _ => f st : Act β).Thrifty := by
  intro traffic left
  exact Nat.le_trans (hf (traffic, left) traffic _) (hless (traffic, left))

theorem thrifty_spend (server : String) (delay : Nat) : (spend server delay).Thrifty := by
  intro traffic left
  rw [run_spend]
  split
  · exact Nat.zero_le _
  · exact Nat.sub_le _ _

theorem endpointOf_thrifty (w : World) (f : Forwarder) : (endpointOf w f).Thrifty := by
  unfold endpointOf
  cases Net.Ip.parse? f.host with
  | some ip => exact thrifty_pure _
  | none =>
    refine thrifty_get fun st => ?_
    cases w.lookUp st.1 f.host with
    | none => exact thrifty_throw _
    | some found => exact thrifty_bind (thrifty_spend _ _) fun _ => thrifty_pure _

theorem firstMessage_thrifty (w : World) (f : Forwarder) (query : Bytes) :
    (firstMessage w f query).Thrifty := by
  unfold firstMessage
  cases f.scheme with
  | udp => exact thrifty_bind (endpointOf_thrifty w f) fun _ => thrifty_pure _
  | tcp => exact thrifty_bind (endpointOf_thrifty w f) fun _ => thrifty_pure _
  | tls => exact thrifty_bind (endpointOf_thrifty w f) fun _ => thrifty_pure _
  | https => exact thrifty_pure _

theorem receive_thrifty (s : Sent) (reaction : Reaction) : (receive s reaction).Thrifty := by
  cases reaction with
  | broken => exact thrifty_throw _
  | silent => exact thrifty_throw _
  | bytes delay bs =>
    refine thrifty_bind (thrifty_spend _ delay) fun _ => ?_
    split
    · split
      · exact thrifty_pure _
      · exact thrifty_throw _
    · exact thrifty_pure _

theorem fetch_thrifty (url : String) (message : Bytes) (visit : Visit) :
    (fetch url message visit).Thrifty :=
  thrifty_setLeft (fun _ => Nat.sub_le _ _) fun _ => thrifty_lift _

theorem awaitReply_thrifty (w : World) (traffic : Traffic) (s : Sent) :
    (awaitReply w traffic s).Thrifty := by
  unfold awaitReply
  split
  · exact fetch_thrifty _ _ _
  · exact receive_thrifty s _

theorem send_thrifty (w : World) (s : Sent) : (send w s).Thrifty := by
  unfold send
  cases s.refusal? w with
  | some cause => exact thrifty_throw _
  | none => exact fun traffic left => awaitReply_thrifty w traffic s (s :: traffic) left

end Act

/-! ## Computations that follow others -/

/-- The clock at a time, when it only goes on while something is waited for. -/
def Clock.even (time : Nat) : Clock := ⟨time, []⟩

/-- A run by an even clock ends the program, or comes to a result. -/
def Evenly {α σ : Type} (run : Except Overflow (α × σ × Clock)) (result : α × σ) : Prop :=
  (∃ o, run = .error o) ∨ ∃ time, run = .ok (result.1, result.2, .even time)

namespace Clocked

variable {α β : Type} {deadline : Nat}

/-- By an even clock, a computation `c` does until a deadline what the computation `a` does with the
time until then as its budget. -/
def Follows (deadline : Nat) (c : Clocked α) (a : Act α) : Prop :=
  ∀ traffic time, time ≤ deadline →
    let (result, traffic', left) := a.run (traffic, deadline - time)
    ∃ time' ≤ deadline, c.run (traffic, .even time) = .ok (result, traffic', .even time') ∧
      ∀ x, result = .ok x → left = deadline - time'

theorem follows_lift (e : Except Failure α) : Follows deadline (liftM e) (liftM e) := by
  intro traffic time htime
  rw [Act.run_liftM]
  exact ⟨time, htime, run_liftM e, fun _ _ => rfl⟩

theorem follows_pure (x : α) : Follows deadline (pure x) (pure x) := follows_lift (.ok x)

theorem follows_throw (f : Failure) :
    Follows deadline (throw f : Clocked α) (throw f) := follows_lift (.error f)

theorem follows_bind {c : Clocked α} {a : Act α} {g : α → Clocked β} {f : α → Act β}
    (h : c.Follows deadline a) (hnext : ∀ x, (g x).Follows deadline (f x)) :
    (c >>= g).Follows deadline (a >>= f) := by
  intro traffic time htime
  have hfirst := h traffic time htime
  rw [Act.run_bind]
  rcases hrun : a.run (traffic, deadline - time) with ⟨e | x, traffic', left⟩
  · rw [hrun] at hfirst
    obtain ⟨time', htime', hclock, -⟩ := hfirst
    exact ⟨time', htime', run_bind_failed hclock g, fun _ hx => by cases hx⟩
  · rw [hrun] at hfirst
    obtain ⟨time', htime', hclock, hleft⟩ := hfirst
    obtain rfl := hleft x rfl
    have hrest := hnext x traffic' time' htime'
    rw [run_bind_ok hclock]
    exact hrest

section Remaining

variable {server : String} {traffic : Traffic} {time : Nat}

theorem run_remaining_bind_early (h : time < deadline) (g : Nat → Clocked β) :
    (remaining server deadline >>= g).run (traffic, .even time) =
      (g (deadline - time)).run (traffic, .even time) :=
  run_bind_ok (run_remaining_early h) g

theorem run_remaining_bind_late (h : deadline ≤ time) (g : Nat → Clocked β) :
    (remaining server deadline >>= g).run (traffic, .even time) =
      .ok (.error (.timeout server), traffic, .even time) :=
  run_bind_failed (run_remaining_late h) g

end Remaining

/-- What is done within the time that remains is what is done if there is time. -/
theorem follows_within (server : String) {a : Act α} (h : a.Thrifty) :
    Follows deadline (remaining server deadline >>= fun left => within left a)
      (Act.needTime server >>= fun _ => a) := by
  intro traffic time htime
  rw [Act.run_needTime_bind]
  rcases Nat.lt_or_ge time deadline with hearly | hlate
  · rw [if_neg (by omega)]
    obtain ⟨spent, hspent, hrun, hleft⟩ := run_within (deadline - time) a traffic (.even time)
    have hthrifty := h traffic (deadline - time)
    refine ⟨time + spent, by omega, (run_remaining_bind_early hearly _).trans hrun, ?_⟩
    intro x hx
    have hspan := hleft x hx
    show (a.run (traffic, deadline - time)).2.2 = deadline - (time + spent)
    omega
  · rw [if_pos (by omega)]
    exact ⟨time, htime, run_remaining_bind_late hlate _, fun _ hx => by cases hx⟩

theorem follows_within_bind (server : String) {a : Act α} (h : a.Thrifty) {g : α → Clocked β}
    {f : α → Act β} (hnext : ∀ x, (g x).Follows deadline (f x)) :
    Follows deadline (remaining server deadline >>= fun left => within left a >>= g)
      (Act.needTime server >>= fun _ => a >>= f) := by
  have hbind := follows_bind (follows_within server h) hnext
  rwa [bind_assoc, bind_assoc] at hbind

/-- Before a deadline that can be computed, the same instant can be computed once more. -/
theorem follows_send (w : World) (s : Sent) (server : String) (hlimit : deadline < Clock.limit) :
    Follows deadline (remaining server deadline >>= fun left => send w s left)
      (Act.needTime server >>= fun _ => Forward.send w s) := by
  intro traffic time htime
  have hsame : (remaining server deadline >>= fun left => send w s left).run (traffic, .even time) =
      (remaining server deadline >>= fun left => within left (Forward.send w s)).run
        (traffic, .even time) := by
    rcases Nat.lt_or_ge time deadline with hearly | hlate
    · have hafter : (after (deadline - time)).run (traffic, .even time) =
          .ok (.ok (time + (deadline - time)), traffic, .even time) :=
        run_after_ok (show time + (deadline - time) < Clock.limit by omega)
      rw [run_remaining_bind_early hearly, run_remaining_bind_early hearly]
      unfold send
      dsimp only
      split
      · exact run_bind_ok hafter _
      · rfl
    · rw [run_remaining_bind_late hlate, run_remaining_bind_late hlate]
  rw [hsame]
  exact follows_within server (Act.send_thrifty w s) traffic time htime

theorem follows_send_bind (w : World) (s : Sent) (server : String) (hlimit : deadline < Clock.limit)
    {g : Bytes → Clocked β} {f : Bytes → Act β} (hnext : ∀ bs, (g bs).Follows deadline (f bs)) :
    Follows deadline (remaining server deadline >>= fun left => send w s left >>= g)
      (Act.needTime server >>= fun _ => Forward.send w s >>= f) := by
  have hbind := follows_bind (follows_send w s server hlimit) hnext
  rwa [bind_assoc, bind_assoc] at hbind

theorem follows_settle (w : World) (f : Forwarder) (id : UInt16) (query : Bytes) (first : Sent)
    (bs : Bytes) (hlimit : deadline < Clock.limit) :
    Follows deadline (settle w deadline f id query first bs)
      (Forward.settle w f id query first bs) := by
  have hcheck : ∀ o : Outcome, Follows deadline
      (if o.reply.header.rcode = Dns.Rcode.noError then pure o
        else throw (.status f.text o.reply.header.rcode))
      (if o.reply.header.rcode = Dns.Rcode.noError then pure o
        else throw (.status f.text o.reply.header.rcode)) := by
    intro o
    split
    · exact follows_pure o
    · exact follows_throw _
  unfold settle Forward.settle
  refine follows_bind (follows_lift _) fun reply => ?_
  dsimp only
  split
  · refine follows_within_bind _ (Act.endpointOf_thrifty w f) fun target => ?_
    refine follows_send_bind w _ _ hlimit fun bs => ?_
    refine follows_bind (follows_lift _) fun again => ?_
    exact hcheck ⟨.stream, again⟩
  · exact hcheck ⟨first.carrier, reply⟩

theorem follows_askUntil (w : World) (f : Forwarder) (id : UInt16) (query : Bytes)
    (hlimit : deadline < Clock.limit) :
    Follows deadline (askUntil w deadline f id query) (Forward.ask w f id query) := by
  rw [Forward.ask_eq]
  refine follows_within_bind _ (Act.firstMessage_thrifty w f query) fun first => ?_
  exact follows_send_bind w first _ hlimit fun bs => follows_settle w f id query first bs hlimit

/-- By an even clock, an attempt whose deadline can be computed is the attempt with its timeout as
the budget. -/
theorem ask_even (w : World) (timeout : Nat) (f : Forwarder) (id : UInt16) (query : Bytes)
    (traffic : Traffic) {time : Nat} (h : time + timeout < Clock.limit) :
    ∃ time', (ask w timeout f id query).run (traffic, .even time) =
      .ok ((attempt w timeout f id query traffic).1, (attempt w timeout f id query traffic).2,
        .even time') := by
  have hfollows := follows_askUntil w f id query h traffic time (Nat.le_add_right _ _)
  rw [Nat.add_sub_cancel_left] at hfollows
  obtain ⟨time', -, hrun, -⟩ := hfollows
  refine ⟨time', ?_⟩
  rw [ask_eq, run_bind_ok (run_after_ok h)]
  exact hrun

/-! ## Forwarders in turn -/

section Turns

variable (w : World) (timeout : Nat) (id : UInt16) (query : Bytes)

theorem tryServer_even (text : String) (traffic : Traffic) (time : Nat) :
    Evenly ((tryServer w timeout id query text).run (traffic, .even time))
      (Forward.tryServer w timeout id query text traffic) := by
  unfold tryServer Forward.tryServer
  cases Forwarder.parse text with
  | error cause => exact Or.inr ⟨time, rfl⟩
  | ok f =>
    by_cases h : time + timeout < Clock.limit
    · exact Or.inr (ask_even w timeout f id query traffic h)
    · exact Or.inl ⟨_, ask_late w f id query (Nat.le_of_not_lt h)⟩

theorem firstReply_even (texts : List String) (traffic : Traffic) (time : Nat) :
    Evenly (firstReply w timeout id query texts (traffic, .even time))
      (Forward.firstReply w timeout id query texts traffic) := by
  induction texts generalizing traffic time with
  | nil => exact Or.inr ⟨time, rfl⟩
  | cons text rest ih =>
    rw [firstReply_cons]
    rcases tryServer_even w timeout id query text traffic time with ⟨o, hrun⟩ | ⟨time', hrun⟩
    · rw [hrun]
      exact Or.inl ⟨o, rfl⟩
    · rw [hrun]
      rcases htry : Forward.tryServer w timeout id query text traffic with
        ⟨cause | outcome, traffic'⟩
      · rw [firstReply_of_error htry]
        exact ih traffic' time'
      · rw [firstReply_of_ok htry]
        exact Or.inr ⟨time', rfl⟩

end Turns

end Clocked

/-- By an even clock, a question is resolved as without one, unless a deadline cannot be
computed. -/
theorem Resolver.resolveBy_even (r : Resolver) (w : World) (q : Dns.Question) (traffic : Traffic)
    (time : Nat) : Evenly (r.resolveBy w q traffic (.even time)) (r.resolve w q traffic) :=
  Clocked.firstReply_even w r.budget _ _ _ traffic time

end DnsGate.Forward
