import DnsGate.Forward.Deadline
import DnsGate.Proofs.Fallback

/-!
Which instants attempts by the clock cannot compute.  Such an instant lies at most a timeout after
a reading of the clock that was not made before the attempt started; every step of an attempt keeps
to this (`Clocked.Keeps`), and so do attempts in turn (`Resolver.resolveBy_ends`).  The deadline of
the first attempt is computed before anything is sent, and the program ends there if that deadline
lies beyond the limit (`Resolver.resolveBy_late`).
-/

namespace DnsGate.Forward

/-! ## The clock -/

theorem Clock.time_le_read (c : Clock) : c.time ≤ c.read.time := by
  unfold Clock.read
  split
  · exact Nat.le_refl _
  · exact Nat.le_add_right _ _

theorem Clock.after_ok {c : Clock} {delay : Nat} (h : c.time + delay < limit) :
    c.after delay = .ok (c.time + delay) := if_pos h

theorem Clock.after_error {c : Clock} {delay : Nat} (h : limit ≤ c.time + delay) :
    c.after delay = .error ⟨c.time, delay⟩ := if_neg (Nat.not_lt.mpr h)

/-- An instant that cannot be computed lies beyond the limit, and at most so many milliseconds after
a reading that was not made before the start. -/
structure Overflow.Past (o : Overflow) (start timeout : Nat) : Prop where
  beyond : Clock.limit ≤ o.time + o.delay
  brief : o.delay ≤ timeout
  later : start ≤ o.time

theorem Overflow.Past.mono {o : Overflow} {start start' timeout : Nat} (h : o.Past start timeout)
    (hle : start' ≤ start) : o.Past start' timeout :=
  ⟨h.beyond, h.brief, Nat.le_trans hle h.later⟩

/-- What a run by the clock comes to: time goes on from a start, or there is an instant that cannot
be computed, and a reason to compute it. -/
def Ends {α σ : Type} (start timeout : Nat) (reason : Prop) :
    Except Overflow (α × σ × Clock) → Prop
  | .ok (_, _, clock) => start ≤ clock.time
  | .error o => o.Past start timeout ∧ reason

theorem Ends.mono {α σ : Type} {start start' timeout : Nat} {reason reason' : Prop}
    {run : Except Overflow (α × σ × Clock)} (h : Ends start timeout reason run)
    (hle : start' ≤ start) (himp : reason → reason') : Ends start' timeout reason' run := by
  rcases run with o | ⟨x, st, clock⟩
  · exact ⟨h.1.mono hle, himp h.2⟩
  · exact Nat.le_trans hle h

/-- A text names a forwarder. -/
def Names (text : String) : Prop := ∃ f, Forwarder.parse text = .ok f

namespace Clocked

/-! ## Runs -/

section Runs

variable {α β : Type} {c : Clocked α} {x : α} {e : Failure} {o : Overflow} {traffic : Traffic}
  {clock : Clock} {st st' : Traffic × Clock}

theorem run_bind (c : Clocked α) (f : α → Clocked β) (st : Traffic × Clock) :
    (c >>= f).run st = match c.run st with
      | .ok (.ok x, st') => (f x).run st'
      | .ok (.error e, st') => .ok (.error e, st')
      | .error o => .error o := by
  rw [ExceptT.run_bind]
  show StateT.run (c.run >>= _) st = _
  rw [StateT.run_bind]
  show (c.run st >>= _) = _
  rcases c.run st with o | ⟨e | x, st'⟩ <;> rfl

theorem run_bind_ok (h : c.run st = .ok (.ok x, st')) (f : α → Clocked β) :
    (c >>= f).run st = (f x).run st' := by
  rw [run_bind, h]

theorem run_bind_failed (h : c.run st = .ok (.error e, st')) (f : α → Clocked β) :
    (c >>= f).run st = .ok (.error e, st') := by
  rw [run_bind, h]

theorem run_bind_error (h : c.run st = .error o) (f : α → Clocked β) :
    (c >>= f).run st = .error o := by
  rw [run_bind, h]

theorem run_liftM (e : Except Failure α) : (liftM e : Clocked α).run st = .ok (e, st) := by
  cases e <;> rfl

theorem run_after_ok {delay : Nat} (h : clock.read.time + delay < Clock.limit) :
    (after delay).run (traffic, clock) =
      .ok (.ok (clock.read.time + delay), traffic, clock.read) := by
  unfold ExceptT.run after
  dsimp only
  rw [Clock.after_ok h]

theorem run_after_error {delay : Nat} (h : Clock.limit ≤ clock.read.time + delay) :
    (after delay).run (traffic, clock) = .error ⟨clock.read.time, delay⟩ := by
  unfold ExceptT.run after
  dsimp only
  rw [Clock.after_error h]

theorem run_now : now.run (traffic, clock) = .ok (.ok clock.read.time, traffic, clock.read) := rfl

theorem run_remaining_late {server : String} {deadline : Nat} (h : deadline ≤ clock.read.time) :
    (remaining server deadline).run (traffic, clock) =
      .ok (.error (.timeout server), traffic, clock.read) := by
  unfold remaining
  rw [run_bind_ok run_now, if_pos h]
  rfl

theorem run_remaining_early {server : String} {deadline : Nat} (h : clock.read.time < deadline) :
    (remaining server deadline).run (traffic, clock) =
      .ok (.ok (deadline - clock.read.time), traffic, clock.read) := by
  unfold remaining
  rw [run_bind_ok run_now, if_neg (Nat.not_le.mpr h)]
  rfl

/-- What is done within a budget takes as long as it takes, or all of the budget. -/
theorem run_within (budget : Nat) (a : Act α) (traffic : Traffic) (clock : Clock) :
    ∃ spent ≤ budget, (within budget a).run (traffic, clock) =
      .ok ((a.run (traffic, budget)).1, (a.run (traffic, budget)).2.1, clock.wait spent) ∧
    ∀ x, (a.run (traffic, budget)).1 = .ok x → spent = budget - (a.run (traffic, budget)).2.2 := by
  have hrun : (within budget a).run (traffic, clock) = within budget a (traffic, clock) := rfl
  rw [hrun, within]
  rcases a.run (traffic, budget) with ⟨result, traffic', left⟩
  dsimp only
  split
  · rename_i heq
    cases heq
    exact ⟨budget, Nat.le_refl _, rfl, fun x hx => by cases hx⟩
  · rename_i heq
    cases heq
    exact ⟨budget - left, Nat.sub_le _ _, rfl, fun _ _ => rfl⟩

end Runs

/-! ## What cannot be computed -/

section Keeps

variable {α β : Type}

/-- From a start on, time does not go back, every instant that cannot be computed lies at most so
many milliseconds after a reading, and what is returned has the property `Q`. -/
def Keeps (start timeout : Nat) (c : Clocked α) (Q : α → Prop) : Prop :=
  ∀ traffic clock, start ≤ clock.time → match c.run (traffic, clock) with
    | .ok (result, _, clock') => start ≤ clock'.time ∧ ∀ x, result = .ok x → Q x
    | .error o => o.Past start timeout

variable {start timeout deadline budget : Nat} {c : Clocked α} {Q : α → Prop} {R : β → Prop}

theorem keeps_lift {e : Except Failure α} (h : ∀ x, e = .ok x → Q x) :
    Keeps start timeout (liftM e) Q := by
  intro traffic clock hstart
  rw [run_liftM]
  exact ⟨hstart, h⟩

theorem keeps_pure {x : α} (h : Q x) : Keeps start timeout (pure x) Q :=
  keeps_lift (e := .ok x) fun _ hy => Except.ok.inj hy ▸ h

theorem keeps_throw (f : Failure) : Keeps start timeout (throw f : Clocked α) Q :=
  keeps_lift (e := .error f) fun _ hy => by cases hy

theorem keeps_bind {f : α → Clocked β} (hc : c.Keeps start timeout Q)
    (hf : ∀ x, Q x → (f x).Keeps start timeout R) : (c >>= f).Keeps start timeout R := by
  intro traffic clock hstart
  have hfirst := hc traffic clock hstart
  rcases hrun : c.run (traffic, clock) with o | ⟨e | x, traffic', clock'⟩
  · rw [hrun] at hfirst
    rw [run_bind_error hrun]
    exact hfirst
  · rw [hrun] at hfirst
    rw [run_bind_failed hrun]
    exact ⟨hfirst.1, fun _ hy => by cases hy⟩
  · rw [hrun] at hfirst
    rw [run_bind_ok hrun]
    exact hf x (hfirst.2 x rfl) traffic' clock' hfirst.1

theorem keeps_remaining (server : String) (h : deadline ≤ start + timeout) :
    (remaining server deadline).Keeps start timeout (· ≤ timeout) := by
  intro traffic clock hstart
  have hread : start ≤ clock.read.time := Nat.le_trans hstart clock.time_le_read
  rcases Nat.lt_or_ge clock.read.time deadline with hearly | hlate
  · rw [run_remaining_early hearly]
    refine ⟨hread, fun left hleft => ?_⟩
    have hspan : deadline - clock.read.time = left := Except.ok.inj hleft
    omega
  · rw [run_remaining_late hlate]
    exact ⟨hread, fun _ hx => by cases hx⟩

theorem keeps_within (a : Act α) : (within budget a).Keeps start timeout (fun _ => True) := by
  intro traffic clock hstart
  obtain ⟨spent, -, hrun, -⟩ := run_within budget a traffic clock
  rw [hrun]
  exact ⟨Nat.le_trans hstart (Nat.le_add_right _ _), fun _ _ => trivial⟩

theorem keeps_after (h : budget ≤ timeout) :
    (after budget).Keeps start timeout (fun _ => True) := by
  intro traffic clock hstart
  have hread : start ≤ clock.read.time := Nat.le_trans hstart clock.time_le_read
  by_cases hlimit : clock.read.time + budget < Clock.limit
  · rw [run_after_ok hlimit]
    exact ⟨hread, fun _ _ => trivial⟩
  · rw [run_after_error (Nat.le_of_not_lt hlimit)]
    exact ⟨Nat.le_of_not_lt hlimit, h, hread⟩

theorem keeps_send (w : World) (s : Sent) (h : budget ≤ timeout) :
    (send w s budget).Keeps start timeout (fun _ => True) := by
  unfold send
  dsimp only
  split
  · exact keeps_bind (keeps_after h) fun _ _ => keeps_within _
  · exact keeps_within _

/-- What an attempt makes of the bytes of the first reply. -/
def settle (w : World) (deadline : Nat) (f : Forwarder) (id : UInt16) (query : Bytes) (first : Sent)
    (bs : Bytes) : Clocked Outcome := do
  let reply ← readReply id bs
  let outcome ←
    if reply.header.truncated ∧ f.scheme = .udp then do
      let target ← within (← remaining f.text deadline) (endpointOf w f)
      let again ← readReply id
        (← send w ⟨.stream, .endpoint target, query⟩ (← remaining f.text deadline))
      pure ⟨Carrier.stream, again⟩
    else pure ⟨first.carrier, reply⟩
  if outcome.reply.header.rcode = Dns.Rcode.noError then return outcome
  else throw (.status f.text outcome.reply.header.rcode)

/-- What an attempt does until its deadline. -/
def askUntil (w : World) (deadline : Nat) (f : Forwarder) (id : UInt16) (query : Bytes) :
    Clocked Outcome := do
  let first ← within (← remaining f.text deadline) (firstMessage w f query)
  settle w deadline f id query first (← send w first (← remaining f.text deadline))

variable (w : World) (f : Forwarder) (id : UInt16) (query : Bytes)

theorem ask_eq (timeout : Nat) : ask w timeout f id query =
    after timeout >>= fun deadline => askUntil w deadline f id query := rfl

theorem keeps_settle (first : Sent) (bs : Bytes) (h : deadline ≤ start + timeout) :
    (settle w deadline f id query first bs).Keeps start timeout (fun _ => True) := by
  have hcheck : ∀ o : Outcome,
      (if o.reply.header.rcode = Dns.Rcode.noError then pure o
        else throw (.status f.text o.reply.header.rcode) : Clocked Outcome).Keeps start timeout
          (fun _ => True) := by
    intro o
    split
    · exact keeps_pure trivial
    · exact keeps_throw _
  unfold settle
  refine keeps_bind (Q := fun _ => True) (keeps_lift fun _ _ => trivial) fun reply _ => ?_
  dsimp only
  split
  · refine keeps_bind (keeps_remaining _ h) fun _ _ => ?_
    refine keeps_bind (keeps_within _) fun target _ => ?_
    refine keeps_bind (keeps_remaining _ h) fun _ hleft => ?_
    refine keeps_bind (keeps_send w _ hleft) fun _ _ => ?_
    refine keeps_bind (Q := fun _ => True) (keeps_lift fun _ _ => trivial) fun again _ => ?_
    exact hcheck ⟨.stream, again⟩
  · exact hcheck ⟨first.carrier, reply⟩

theorem keeps_askUntil (h : deadline ≤ start + timeout) :
    (askUntil w deadline f id query).Keeps start timeout (fun _ => True) := by
  refine keeps_bind (keeps_remaining _ h) fun _ _ => ?_
  refine keeps_bind (keeps_within _) fun first _ => ?_
  refine keeps_bind (keeps_remaining _ h) fun _ hleft => ?_
  exact keeps_bind (keeps_send w first hleft) fun bs _ => keeps_settle w f id query first bs h

/-- The deadline of an attempt is computed before anything is sent. -/
theorem ask_late {traffic : Traffic} {clock : Clock}
    (h : Clock.limit ≤ clock.read.time + timeout) :
    (ask w timeout f id query).run (traffic, clock) = .error ⟨clock.read.time, timeout⟩ := by
  rw [ask_eq]
  exact run_bind_error (run_after_error h) _

theorem keeps_ask : (ask w timeout f id query).Keeps start timeout (fun _ => True) := by
  intro traffic clock hstart
  have hread : start ≤ clock.read.time := Nat.le_trans hstart clock.time_le_read
  by_cases hlimit : clock.read.time + timeout < Clock.limit
  · -- from the reading that the deadline is computed from, the rest keeps to that deadline
    have hrest := keeps_askUntil w f id query (Nat.le_refl (clock.read.time + timeout)) traffic
      clock.read (Nat.le_refl _)
    rw [ask_eq, run_bind_ok (run_after_ok hlimit)]
    rcases hrun : (askUntil w (clock.read.time + timeout) f id query).run (traffic, clock.read) with
      o | ⟨result, traffic', clock'⟩
    · rw [hrun] at hrest
      exact hrest.mono hread
    · rw [hrun] at hrest
      exact ⟨Nat.le_trans hread hrest.1, fun _ _ => trivial⟩
  · rw [ask_late w f id query (Nat.le_of_not_lt hlimit)]
    exact ⟨Nat.le_of_not_lt hlimit, Nat.le_refl _, hread⟩

end Keeps

/-! ## Forwarders in turn -/

section Turns

variable {w : World} {timeout : Nat} {id : UInt16} {query : Bytes} {texts : List String}
  {traffic : Traffic} {clock : Clock}

variable (w timeout id query) in
theorem tryServer_of_names {text : String} (h : Names text) :
    ∃ f, tryServer w timeout id query text = ask w timeout f id query := by
  obtain ⟨f, hf⟩ := h
  refine ⟨f, ?_⟩
  unfold tryServer
  rw [hf]

variable (w timeout id query) in
theorem tryServer_of_not_names {text : String} (h : ¬ Names text) (st : Traffic × Clock) :
    ∃ cause, (tryServer w timeout id query text).run st = .ok (.error cause, st) := by
  unfold tryServer
  cases hparse : Forwarder.parse text with
  | error cause => exact ⟨.forwarder cause, rfl⟩
  | ok f => exact absurd ⟨f, hparse⟩ h

theorem firstReply_cons (text : String) (rest : List String) (st : Traffic × Clock) :
    firstReply w timeout id query (text :: rest) st =
      match (tryServer w timeout id query text).run st with
      | .ok (.ok outcome, st') => .ok (some outcome.reply, st')
      | .ok (.error _, st') => firstReply w timeout id query rest st'
      | .error o => .error o := by
  rw [firstReply]
  rcases (tryServer w timeout id query text).run st with o | ⟨e | outcome, st'⟩ <;> rfl

theorem firstReply_ends (texts : List String) (traffic : Traffic) (clock : Clock) :
    Ends clock.time timeout (∃ text ∈ texts, Names text)
      (firstReply w timeout id query texts (traffic, clock)) := by
  induction texts generalizing traffic clock with
  | nil => exact Nat.le_refl _
  | cons text rest ih =>
    have hmore : (∃ other ∈ rest, Names other) → ∃ other ∈ text :: rest, Names other :=
      fun ⟨other, hother, hnames⟩ => ⟨other, List.mem_cons_of_mem _ hother, hnames⟩
    rw [firstReply_cons]
    by_cases hnames : Names text
    · obtain ⟨f, hf⟩ := tryServer_of_names w timeout id query hnames
      have hkeeps : Keeps clock.time timeout (ask w timeout f id query) _ := keeps_ask w f id query
      have hask := hkeeps traffic clock (Nat.le_refl _)
      rw [hf]
      rcases hrun : (ask w timeout f id query).run (traffic, clock) with
        o | ⟨e | outcome, traffic', clock'⟩
      · rw [hrun] at hask
        exact ⟨hask, text, List.mem_cons_self, hnames⟩
      · -- the next forwarder starts later, so what it cannot compute is past this start as well
        rw [hrun] at hask
        exact (ih traffic' clock').mono hask.1 hmore
      · rw [hrun] at hask
        exact hask.1
    · obtain ⟨cause, hrun⟩ := tryServer_of_not_names w timeout id query hnames (traffic, clock)
      rw [hrun]
      exact (ih traffic clock).mono (Nat.le_refl _) hmore

/-- Texts that name no forwarder take no time, so the first one that does is tried at once. -/
theorem firstReply_late (hnames : ∃ text ∈ texts, Names text)
    (hlate : Clock.limit ≤ clock.read.time + timeout) :
    firstReply w timeout id query texts (traffic, clock) = .error ⟨clock.read.time, timeout⟩ := by
  induction texts with
  | nil =>
    obtain ⟨text, htext, -⟩ := hnames
    exact absurd htext List.not_mem_nil
  | cons text rest ih =>
    rw [firstReply_cons]
    by_cases hfirst : Names text
    · obtain ⟨f, hf⟩ := tryServer_of_names w timeout id query hfirst
      rw [hf, ask_late w f id query hlate]
    · obtain ⟨cause, hrun⟩ := tryServer_of_not_names w timeout id query hfirst (traffic, clock)
      rw [hrun]
      obtain ⟨other, hother, hnamed⟩ := hnames
      rcases List.mem_cons.mp hother with rfl | hother
      · exact absurd hnamed hfirst
      · exact ih ⟨other, hother, hnamed⟩

end Turns

end Clocked

namespace Resolver

variable {r : Resolver} {w : World} {q : Dns.Question} {traffic : Traffic} {clock : Clock}

/-- Some text of the settings names a forwarder. -/
def Usable (r : Resolver) : Prop := ∃ text ∈ r.servers, Names text

theorem usable_iff_ranked : r.Usable ↔ ∃ text ∈ ranked r.servers, Names text :=
  exists_congr fun _ => and_congr_left fun _ => (ranked_perm r.servers).mem_iff.symm

/-- An instant that cannot be computed is that of a deadline: it lies at most a budget after a
reading of the clock, and some forwarder is there to be asked. -/
theorem resolveBy_ends (r : Resolver) (w : World) (q : Dns.Question) (traffic : Traffic)
    (clock : Clock) : Ends clock.time r.budget r.Usable (r.resolveBy w q traffic clock) :=
  (Clocked.firstReply_ends (ranked r.servers) traffic clock).mono (Nat.le_refl _)
    usable_iff_ranked.mpr

/-- The deadline of the first attempt is computed before anything is sent. -/
theorem resolveBy_late (husable : r.Usable) (hlate : Clock.limit ≤ clock.read.time + r.budget) :
    r.resolveBy w q traffic clock = .error ⟨clock.read.time, r.budget⟩ :=
  Clocked.firstReply_late (usable_iff_ranked.mp husable) hlate

end Resolver

end DnsGate.Forward
