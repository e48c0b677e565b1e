import DnsGate.Forward.Attempt

/-!
What one attempt on a forwarder puts on the wire and what it comes down to.  Computations that send
messages only add to the traffic, so a property of the messages that they send and one of what they
return can be carried through a whole attempt.  Main statements: an attempt sends nothing but the
query and sends it to its own forwarder only, and one that succeeds has sent it and has a reply that
bears the number of the question and no error (`attempt_sends`, `attempt_delivers`, `attempt_ok`).
-/

namespace DnsGate.Forward

/-! ## Computations that send -/

namespace Act

variable {α β : Type}

theorem run_bind (a : Act α) (f : α → Act β) (st : Traffic × Nat) :
    (a >>= f).run st = match a.run st with
      | (.ok x, st') => (f x).run st'
      | (.error e, st') => (.error e, st') := by
  rw [ExceptT.run_bind]
  rcases h : a.run st with ⟨x | x, st'⟩ <;> simp [bind, StateT.bind, h, pure]
  rfl

section Run

variable {a : Act α} {x : α} {e : Failure} {st st' : Traffic × Nat} {traffic : Traffic} {left : Nat}

theorem run_bind_ok (h : a.run st = (.ok x, st')) (f : α → Act β) :
    (a >>= f).run st = (f x).run st' := by
  rw [run_bind, h]

theorem run_bind_error (h : a.run st = (.error e, st')) (f : α → Act β) :
    (a >>= f).run st = (.error e, st') := by
  rw [run_bind, h]

theorem run_liftM (e : Except Failure α) : (liftM e : Act α).run st = (e, st) := by
  cases e <;> rfl

theorem run_get (st : Traffic × Nat) : (get : Act (Traffic × Nat)).run st = (.ok st, st) := rfl

theorem run_spend (server : String) (delay : Nat) (traffic : Traffic) (left : Nat) :
    (spend server delay).run (traffic, left) =
      if left < delay then (.error (.timeout server), traffic, 0)
      else (.ok (), traffic, left - delay) := by
  unfold spend
  rw [run_bind, run_get]
  dsimp only
  split <;> rfl

theorem run_spend_bind (server : String) (delay : Nat) (f : Unit → Act β) :
    (spend server delay >>= f).run (traffic, left) =
      if left < delay then (.error (.timeout server), traffic, 0)
      else (f ()).run (traffic, left - delay) := by
  rw [run_bind, run_spend]
  by_cases hlate : left < delay
  · rw [if_pos hlate, if_pos hlate]
  · rw [if_neg hlate, if_neg hlate]

theorem run_needTime_bind (server : String) (f : Unit → Act β) :
    (needTime server >>= f).run (traffic, left) =
      if left = 0 then (.error (.timeout server), traffic, left) else (f ()).run (traffic, left) := by
  unfold needTime
  rw [bind_assoc, run_bind_ok (run_get _)]
  dsimp only
  split <;> rfl

end Run

/-- The messages that a computation sends have the property `P`, and what it returns has `Q`. -/
def Meets (a : Act α) (P : Sent → Prop) (Q : α → Prop) : Prop :=
  ∀ traffic left, ∃ sent, (a.run (traffic, left)).2.1 = sent ++ traffic ∧ (∀ s ∈ sent, P s) ∧
    ∀ x, (a.run (traffic, left)).1 = .ok x → Q x

variable {P : Sent → Prop} {Q : α → Prop} {R : β → Prop}

theorem meets_pure {x : α} (h : Q x) : Meets (pure x) P Q := by
  intro traffic left
  refine ⟨[], rfl, by simp, ?_⟩
  intro y hy
  obtain rfl : x = y := Except.ok.inj hy
  exact h

theorem meets_throw (f : Failure) : Meets (throw f : Act α) P Q := by
  intro traffic left
  refine ⟨[], rfl, by simp, ?_⟩
  intro y hy
  have hrun : (throw f : Act α).run (traffic, left) = (.error f, traffic, left) := rfl
  rw [hrun] at hy
  cases hy

theorem meets_lift {e : Except Failure α} (h : ∀ x, e = .ok x → Q x) :
    Meets (liftM e : Act α) P Q := by
  cases e with
  | ok x => exact meets_pure (h x rfl)
  | error f => exact meets_throw f

theorem meets_bind {a : Act α} {f : α → Act β} (ha : a.Meets P Q)
    (hf : ∀ x, Q x → (f x).Meets P R) : (a >>= f).Meets P R := by
  intro traffic left
  obtain ⟨sent, happ, hsent, hret⟩ := ha traffic left
  rw [run_bind]
  rcases hrun : a.run (traffic, left) with ⟨x | x, traffic₁, left₁⟩
  · rw [hrun] at happ
    exact ⟨sent, happ, hsent, fun y hy => by cases hy⟩
  · rw [hrun] at happ hret
    obtain ⟨more, happ', hmore, hret'⟩ := hf x (hret x rfl) traffic₁ left₁
    refine ⟨more ++ sent, ?_, ?_, hret'⟩
    · rw [List.append_assoc, ← happ]
      exact happ'
    · intro s hs
      rcases List.mem_append.mp hs with hs | hs
      · exact hmore s hs
      · exact hsent s hs

/-- Reading the state alone sends nothing. -/
theorem meets_get {f : Traffic × Nat → Act β} (hf : ∀ st, (f st).Meets P R) :
    (get >>= f : Act β).Meets P R := by
  intro traffic left
  exact hf (traffic, left) traffic left

/-- Changing the time that is left sends nothing. -/
theorem meets_setLeft {left' : Traffic × Nat → Nat} {f : Traffic × Nat → Act β}
    (hf : ∀ st, (f st).Meets P R) :
    (get >>= fun st => set (st.1, left' st) >>= fun _ => f st : Act β).Meets P R := by
  intro traffic left
  exact hf (traffic, left) traffic (left' (traffic, left))

/-- A message that is put on the wire, and what is done after that. -/
theorem meets_emit {s : Sent} {f : Traffic × Nat → Act β} (hs : P s)
    (hf : ∀ st, (f st).Meets P R) :
    (get >>= fun st => set (s :: st.1, st.2) >>= fun _ => f st : Act β).Meets P R := by
  intro traffic left
  obtain ⟨sent, happ, hsent, hret⟩ := hf (traffic, left) (s :: traffic) left
  refine ⟨sent ++ [s], ?_, ?_, hret⟩
  · rw [List.append_assoc]
    exact happ
  · intro t ht
    rcases List.mem_append.mp ht with ht | ht
    · exact hsent t ht
    · rw [List.mem_singleton.mp ht]
      exact hs

theorem meets_spend (server : String) (delay : Nat) :
    (spend server delay).Meets P (fun _ => True) := by
  intro traffic left
  refine ⟨[], ?_, by simp, fun _ _ => trivial⟩
  rw [run_spend]
  split <;> rfl

theorem meets_needTime (server : String) : (needTime server).Meets P (fun _ => True) := by
  refine meets_get fun st => ?_
  by_cases h : st.2 = 0
  · rw [if_pos h]
    exact meets_throw _
  · rw [if_neg h]
    exact meets_pure trivial

/-- A computation does not return anything unless it has sent something. -/
def Delivers (a : Act α) : Prop :=
  ∀ traffic left x, (a.run (traffic, left)).1 = .ok x →
    traffic.length < (a.run (traffic, left)).2.1.length

theorem delivers_throw (f : Failure) : Delivers (throw f : Act α) := by
  intro traffic left x hx
  have hrun : (throw f : Act α).run (traffic, left) = (.error f, traffic, left) := rfl
  rw [hrun] at hx
  cases hx

theorem delivers_emit {s : Sent} {f : Traffic × Nat → Act β} (hf : ∀ st, (f st).Meets P R) :
    (get >>= fun st => set (s :: st.1, st.2) >>= fun _ => f st : Act β).Delivers := by
  intro traffic left x hx
  obtain ⟨sent, happ, -, -⟩ := hf (traffic, left) (s :: traffic) left
  have hlen : traffic.length < (sent ++ s :: traffic).length := by
    rw [List.length_append, List.length_cons]
    omega
  rw [← happ] at hlen
  exact hlen

theorem delivers_bind_right {a : Act α} {f : α → Act β} (ha : a.Meets P Q)
    (hf : ∀ x, (f x).Delivers) : (a >>= f).Delivers := by
  intro traffic left y hy
  obtain ⟨sent, happ, -, -⟩ := ha traffic left
  rw [run_bind] at hy ⊢
  rcases hrun : a.run (traffic, left) with ⟨x | x, traffic₁, left₁⟩
  · rw [hrun] at hy
    cases hy
  · rw [hrun] at hy happ
    have hlen : traffic.length ≤ traffic₁.length := by
      rw [show traffic₁ = sent ++ traffic from happ, List.length_append]
      omega
    exact Nat.lt_of_le_of_lt hlen (hf x traffic₁ left₁ y hy)

theorem delivers_bind_left {a : Act α} {f : α → Act β} (ha : a.Delivers)
    (hf : ∀ x, (f x).Meets P R) : (a >>= f).Delivers := by
  intro traffic left y hy
  rw [run_bind] at hy ⊢
  rcases hrun : a.run (traffic, left) with ⟨x | x, traffic₁, left₁⟩
  · rw [hrun] at hy
    cases hy
  · have hlen := ha traffic left x (by rw [hrun])
    obtain ⟨sent, happ, -, -⟩ := hf x traffic₁ left₁
    rw [hrun] at hlen
    dsimp only at happ hlen ⊢
    rw [happ, List.length_append]
    omega

end Act

/-! ## One message -/

open Act

/-- An endpoint that a forwarder is reached at: its service at its address, or at one that its host
name was found to have. -/
def Forwarder.At (w : World) (f : Forwarder) (e : Net.Endpoint) : Prop :=
  e.service = UInt16.ofNat f.service ∧
    (Net.Ip.parse? f.host = some e.ip ∨
      Net.Ip.parse? f.host = none ∧ ∃ traffic delay, w.lookUp traffic f.host = some (delay, e.ip))

/-- A message goes to a forwarder. -/
def Sent.GoesTo (w : World) (f : Forwarder) (s : Sent) : Prop :=
  match s.target with
  | .endpoint e => f.At w e
  | .named e host => f.At w e ∧ host = f.host
  | .url u => u = f.url

theorem endpointOf_meets (w : World) (f : Forwarder) (P : Sent → Prop) :
    (endpointOf w f).Meets P (f.At w) := by
  unfold endpointOf
  cases hip : Net.Ip.parse? f.host with
  | some ip => exact meets_pure ⟨rfl, Or.inl hip⟩
  | none =>
    refine meets_get fun st => ?_
    cases hfound : w.lookUp st.1 f.host with
    | none => exact meets_throw _
    | some found =>
      refine meets_bind (meets_spend f.text found.1) fun _ _ => ?_
      exact meets_pure ⟨rfl, Or.inr ⟨hip, st.1, found.1, hfound⟩⟩

theorem receive_meets (s : Sent) (reaction : Reaction) (P : Sent → Prop) :
    (receive s reaction).Meets P (fun _ => True) := by
  cases reaction with
  | broken => exact meets_throw _
  | silent => exact meets_throw _
  | bytes delay bs =>
    refine meets_bind (meets_spend _ delay) fun _ _ => ?_
    split
    · split
      · exact meets_pure trivial
      · exact meets_throw _
    · exact meets_pure trivial

theorem fetch_meets (url : String) (message : Bytes) (visit : Visit) (P : Sent → Prop) :
    (fetch url message visit).Meets P (fun _ => True) :=
  meets_setLeft fun _ => meets_lift fun _ _ => trivial

theorem awaitReply_meets (w : World) (traffic : Traffic) (s : Sent) (P : Sent → Prop) :
    (awaitReply w traffic s).Meets P (fun _ => True) := by
  unfold awaitReply
  split
  · exact fetch_meets _ _ _ P
  · exact receive_meets s _ P

theorem send_meets (w : World) (s : Sent) {P : Sent → Prop} (hs : P s) :
    (send w s).Meets P (fun _ => True) := by
  unfold send
  cases s.refusal? w with
  | some cause => exact meets_throw _
  | none => exact meets_emit hs fun st => awaitReply_meets w st.1 s P

theorem send_delivers (w : World) (s : Sent) : (send w s).Delivers := by
  unfold send
  cases s.refusal? w with
  | some cause => exact delivers_throw _
  | none => exact delivers_emit fun st => awaitReply_meets w st.1 s (fun _ => True)

/-- The message that carries a query to a forwarder: the query's bytes, to that forwarder. -/
def Sent.Carries (w : World) (f : Forwarder) (query : Bytes) (s : Sent) : Prop :=
  s.bytes = query ∧ s.GoesTo w f

theorem firstMessage_meets (w : World) (f : Forwarder) (query : Bytes) (P : Sent → Prop) :
    (firstMessage w f query).Meets P (Sent.Carries w f query) := by
  unfold firstMessage
  cases f.scheme with
  | udp => exact meets_bind (endpointOf_meets w f P) fun e he => meets_pure ⟨rfl, he⟩
  | tcp => exact meets_bind (endpointOf_meets w f P) fun e he => meets_pure ⟨rfl, he⟩
  | tls => exact meets_bind (endpointOf_meets w f P) fun e he => meets_pure ⟨rfl, he, rfl⟩
  | https => exact meets_pure ⟨rfl, rfl⟩

theorem readReply_eq_ok_iff {id : UInt16} {bs : Bytes} {m : Dns.Message} :
    readReply id bs = .ok m ↔ Dns.Message.decode bs = some m ∧ m.header.id = id := by
  unfold readReply
  cases Dns.Message.decode bs with
  | none => simp
  | some m' =>
    dsimp only
    split
    · rename_i hid
      constructor
      · rintro ⟨⟩
        exact ⟨rfl, hid⟩
      · rintro ⟨⟨⟩, -⟩
        rfl
    · rename_i hid
      constructor
      · rintro ⟨⟩
      · rintro ⟨⟨⟩, hid'⟩
        exact absurd hid' hid

theorem readReply_ok {id : UInt16} {bs : Bytes} {m : Dns.Message} (h : readReply id bs = .ok m) :
    m.header.id = id := (readReply_eq_ok_iff.mp h).2

/-! ## An attempt -/

/-- A reply that answers the question with a number, without error. -/
def Outcome.Answers (id : UInt16) (o : Outcome) : Prop :=
  o.reply.header.id = id ∧ o.reply.header.rcode = Dns.Rcode.noError

/-- What an attempt makes of the bytes of the first reply. -/
def settle (w : World) (f : Forwarder) (id : UInt16) (query : Bytes) (first : Sent) (bs : Bytes) :
    Act Outcome := do
  let reply ← readReply id bs
  let outcome ←
    if reply.header.truncated ∧ f.scheme = .udp then do
      needTime f.text
      let target ← endpointOf w f
      needTime f.text
      let again ← readReply id (← send w ⟨.stream, .endpoint target, query⟩)
      pure ⟨Carrier.stream, again⟩
    else pure ⟨first.carrier, reply⟩
  if outcome.reply.header.rcode = Dns.Rcode.noError then return outcome
  else throw (.status f.text outcome.reply.header.rcode)

theorem ask_eq (w : World) (f : Forwarder) (id : UInt16) (query : Bytes) :
    ask w f id query = (do
      needTime f.text
      let first ← firstMessage w f query
      needTime f.text
      settle w f id query first (← send w first)) := rfl

theorem settle_meets (w : World) (f : Forwarder) (id : UInt16) (query : Bytes) (first : Sent)
    (bs : Bytes) :
    (settle w f id query first bs).Meets (Sent.Carries w f query) (Outcome.Answers id) := by
  -- whichever reply counts, it bears the number, and the last check leaves those without error
  have hcheck : ∀ o : Outcome, o.reply.header.id = id →
      (if o.reply.header.rcode = Dns.Rcode.noError then pure o
        else throw (.status f.text o.reply.header.rcode) : Act Outcome).Meets
          (Sent.Carries w f query) (Outcome.Answers id) := by
    intro o ho
    split
    · exact meets_pure ⟨ho, by assumption⟩
    · exact meets_throw _
  unfold settle
  refine meets_bind (meets_lift fun m => readReply_ok) fun reply hreply => ?_
  dsimp only
  split
  · refine meets_bind (meets_needTime _) fun _ _ => ?_
    refine meets_bind (endpointOf_meets w f _) fun target htarget => ?_
    refine meets_bind (meets_needTime _) fun _ _ => ?_
    refine meets_bind (send_meets w _ ⟨rfl, htarget⟩) fun _ _ => ?_
    refine meets_bind (meets_lift fun m => readReply_ok) fun again hagain => ?_
    exact hcheck ⟨.stream, again⟩ hagain
  · exact hcheck ⟨first.carrier, reply⟩ hreply

theorem ask_meets (w : World) (f : Forwarder) (id : UInt16) (query : Bytes) :
    (ask w f id query).Meets (Sent.Carries w f query) (Outcome.Answers id) := by
  rw [ask_eq]
  refine meets_bind (meets_needTime _) fun _ _ => ?_
  refine meets_bind (firstMessage_meets w f query _) fun first hfirst => ?_
  refine meets_bind (meets_needTime _) fun _ _ => ?_
  exact meets_bind (send_meets w first hfirst) fun bs _ => settle_meets w f id query first bs

theorem ask_delivers (w : World) (f : Forwarder) (id : UInt16) (query : Bytes) :
    (ask w f id query).Delivers := by
  let P : Sent → Prop := fun _ => True
  rw [ask_eq]
  refine delivers_bind_right (P := P) (meets_needTime _) fun _ => ?_
  refine delivers_bind_right (firstMessage_meets w f query P) fun first => ?_
  refine delivers_bind_right (P := P) (meets_needTime _) fun _ => ?_
  exact delivers_bind_left (send_delivers w first) fun bs => settle_meets w f id query first bs

section Attempt

variable (w : World) (budget : Nat) (f : Forwarder) (id : UInt16) (query : Bytes)
  (traffic : Traffic)

/-- An attempt adds to the traffic; all that it adds carries the query to its forwarder. -/
theorem attempt_sends : ∃ sent, (attempt w budget f id query traffic).2 = sent ++ traffic ∧
    ∀ s ∈ sent, s.Carries w f query := by
  obtain ⟨sent, happ, hsent, -⟩ := ask_meets w f id query traffic budget
  exact ⟨sent, happ, hsent⟩

variable {w budget f id query traffic}

theorem attempt_ok {o : Outcome} (h : (attempt w budget f id query traffic).1 = .ok o) :
    o.Answers id := by
  obtain ⟨-, -, -, hret⟩ := ask_meets w f id query traffic budget
  exact hret o h

theorem attempt_delivers {o : Outcome} (h : (attempt w budget f id query traffic).1 = .ok o) :
    traffic.length < (attempt w budget f id query traffic).2.length :=
  ask_delivers w f id query traffic budget o h

end Attempt

end DnsGate.Forward
