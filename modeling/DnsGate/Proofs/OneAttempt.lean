import DnsGate.Proofs.Exchange
import DnsGate.Proofs.ResponseCodes

/-!
What decides an attempt on a forwarder whose host is an address.  The reply of the first exchange
decides, unless it is a truncated datagram that bears the number of the question, and then that of
its repetition over a stream does (`Decisive`).  Main statement: an attempt comes down to a message
exactly if the deciding reply is that message, bears the number and says no error in any of its
twelve bits; and it makes two exchanges if the first reply is such a datagram, and one otherwise
(`attempt_decided`).  The exchanges are taken for what the program makes of them (`received?`).
-/

namespace DnsGate.Forward

open Act

/-! ## Messages to addresses -/

/-- A message does not fit into the frame that it goes in. -/
abbrev Sent.Oversized (s : Sent) : Prop := s.Framed ∧ Chunk.maxLength < s.bytes.length

/-- If a certificate must bear a name, the name is an address. -/
def Sent.Addressed (s : Sent) : Prop :=
  ∀ e host, s.target = .named e host → (Net.Ip.parse? host).isSome

section Refusals

variable {w : World} {s : Sent}

theorem misnamed?_of_addressed (h : s.Addressed) : s.misnamed? w = none := by
  unfold Sent.misnamed?
  split
  · rename_i e host htarget
    exact if_pos (Or.inl (h e host htarget))
  · rfl

/-- Only its length keeps a message to an address off the wire. -/
theorem refusal?_eq_none_iff (h : s.Addressed) : s.refusal? w = none ↔ ¬ s.Oversized := by
  unfold Sent.refusal? Sent.tooLong? Sent.Oversized
  rw [misnamed?_of_addressed h, Option.none_or]
  simp only [frame?_eq_none_iff]
  split
  · rename_i hlong
    exact iff_of_false (by simp) fun hfits => hfits hlong
  · rename_i hfits
    exact iff_of_true rfl hfits

end Refusals

/-! ## Exchanges -/

/-- What exchanges come to, given the traffic before them and the milliseconds that are left: the
bytes of the reply and how much time is left after it, or nothing. -/
abbrev Exchanges := Sent → Traffic → Nat → Option (Bytes × Nat)

/-- What an exchange puts on the wire: its message.  It is refused at once if it does not fit into
its frame, or if no time is left. -/
def onWire (s : Sent) (left : Nat) : List Sent := if left = 0 ∨ s.Oversized then [] else [s]

/-- What the program makes of an exchange: the bytes that `send` returns, if there is time. -/
def received? (w : World) : Exchanges := fun s traffic left =>
  if left = 0 then none
  else
    let (result, (_, left')) := (send w s).run (traffic, left)
    result.toOption.map (·, left')

section Received

variable {w : World} {s : Sent} {traffic : Traffic} {left left' : Nat} {bs : Bytes}

/-- Waiting for a reply leaves the traffic as it is. -/
theorem awaitReply_traffic (st : Traffic × Nat) : ((awaitReply w traffic s).run st).2.1 = st.1 := by
  obtain ⟨sent, happ, hsent, -⟩ := awaitReply_meets w traffic s (fun _ => False) st.1 st.2
  obtain rfl : sent = [] := List.eq_nil_iff_forall_not_mem.mpr hsent
  exact happ

theorem run_send (h : s.refusal? w = none) :
    (send w s).run (traffic, left) = (awaitReply w traffic s).run (s :: traffic, left) := by
  unfold send
  rw [h]
  rfl

theorem run_send_refused {cause : Failure} (h : s.refusal? w = some cause) :
    (send w s).run (traffic, left) = (.error cause, traffic, left) := by
  unfold send
  rw [h]
  rfl

theorem refused_iff (haddressed : s.Addressed) :
    (∃ cause, s.refusal? w = some cause) ↔ s.Oversized := by
  rw [← Option.ne_none_iff_exists', Ne, refusal?_eq_none_iff haddressed, Decidable.not_not]

variable (w traffic) in
/-- What sending a message puts on the wire, when there is time. -/
theorem send_traffic (haddressed : s.Addressed) (hleft : left ≠ 0) :
    ((send w s).run (traffic, left)).2.1 = onWire s left ++ traffic := by
  unfold onWire
  cases hrefusal : s.refusal? w with
  | some cause =>
    rw [if_pos (Or.inr ((refused_iff haddressed).mp ⟨cause, hrefusal⟩)), run_send_refused hrefusal]
    rfl
  | none =>
    have hfits := (refusal?_eq_none_iff haddressed).mp hrefusal
    rw [if_neg (not_or.mpr ⟨hleft, hfits⟩), run_send hrefusal]
    exact awaitReply_traffic _

theorem received?_eq_some (h : received? w s traffic left = some (bs, left')) :
    left ≠ 0 ∧ ∃ after, (send w s).run (traffic, left) = (.ok bs, after, left') := by
  unfold received? at h
  split at h
  · cases h
  · rename_i hleft
    rcases hrun : (send w s).run (traffic, left) with ⟨cause | bs', after, left₁⟩
    · rw [hrun] at h
      cases h
    · rw [hrun] at h
      cases h
      exact ⟨hleft, after, rfl⟩

theorem received?_eq_none (h : received? w s traffic left = none) (hleft : left ≠ 0) :
    ∃ cause after left', (send w s).run (traffic, left) = (.error cause, after, left') := by
  unfold received? at h
  rw [if_neg hleft] at h
  rcases hrun : (send w s).run (traffic, left) with ⟨cause | bs, after, left'⟩
  · exact ⟨cause, after, left', rfl⟩
  · rw [hrun] at h
    cases h

/-- A reply is received only to a message that was sent. -/
theorem onWire_of_received (haddressed : s.Addressed)
    (h : received? w s traffic left = some (bs, left')) : onWire s left = [s] := by
  obtain ⟨hleft, after, hrun⟩ := received?_eq_some h
  refine if_neg (not_or.mpr ⟨hleft, fun hlong => ?_⟩)
  obtain ⟨cause, hrefusal⟩ := (refused_iff haddressed).mpr hlong
  rw [run_send_refused hrefusal] at hrun
  cases hrun

/-- An exchange that has a reply goes on with it. -/
theorem run_exchange_some {α : Type} (server : String) (f : Bytes → Act α)
    (haddressed : s.Addressed) (h : received? w s traffic left = some (bs, left')) :
    (needTime server >>= fun _ => send w s >>= f).run (traffic, left) =
      (f bs).run (s :: traffic, left') := by
  obtain ⟨hleft, after, hrun⟩ := received?_eq_some h
  have hafter := send_traffic w traffic haddressed hleft
  rw [hrun, onWire_of_received haddressed h] at hafter
  obtain rfl : after = s :: traffic := hafter
  rw [run_needTime_bind, if_neg hleft]
  exact run_bind_ok hrun f

/-- An exchange that has none fails. -/
theorem run_exchange_none {α : Type} (server : String) (f : Bytes → Act α)
    (haddressed : s.Addressed) (h : received? w s traffic left = none) :
    ∃ cause left', (needTime server >>= fun _ => send w s >>= f).run (traffic, left) =
      (.error cause, onWire s left ++ traffic, left') := by
  rw [run_needTime_bind]
  by_cases hleft : left = 0
  · rw [if_pos hleft, onWire, if_pos (Or.inl hleft)]
    exact ⟨_, left, rfl⟩
  · rw [if_neg hleft]
    obtain ⟨cause, after, left', hrun⟩ := received?_eq_none h hleft
    have hafter := send_traffic w traffic haddressed hleft
    rw [hrun] at hafter
    obtain rfl : after = onWire s left ++ traffic := hafter
    exact ⟨cause, left', run_bind_error hrun f⟩

end Received

/-! ## The deciding reply -/

/-- Where a forwarder is reached at an address. -/
def Forwarder.endpoint (f : Forwarder) (ip : Net.Ip) : Net.Endpoint :=
  ⟨ip, 0, UInt16.ofNat f.service⟩

/-- What an attempt on a forwarder at an address sends first. -/
def Forwarder.opening (f : Forwarder) (ip : Net.Ip) (query : Bytes) : Sent :=
  match f.scheme with
  | .udp => ⟨.datagram, .endpoint (f.endpoint ip), query⟩
  | .tcp => ⟨.stream, .endpoint (f.endpoint ip), query⟩
  | .tls => ⟨.tls, .named (f.endpoint ip) f.host, query⟩
  | .https => ⟨.https, .url f.url, query⟩

/-- What it sends when it asks again: the same bytes to the same endpoint, over a stream. -/
def Forwarder.repetition (f : Forwarder) (ip : Net.Ip) (query : Bytes) : Sent :=
  ⟨.stream, .endpoint (f.endpoint ip), query⟩

/-- A first reply after which a forwarder is asked again: it came as a datagram, is a message, bears
the number of the question and is truncated. -/
def Forwarder.Repeats (f : Forwarder) (id : UInt16) (bs : Bytes) : Prop :=
  f.scheme = .udp ∧
    ∃ m, Dns.Message.decode bs = some m ∧ m.header.id = id ∧ m.header.truncated = true

/-- A reply is a message that bears the number of the question and says no error, neither in its
header nor in its extension record. -/
structure Accepts (id : UInt16) (bs : Bytes) (m : Dns.Message) : Prop where
  parses : Dns.Message.decode bs = some m
  bears : m.header.id = id
  noError : ∃ raw, Dns.Reader.rawMessage.run bs = some raw ∧ raw.header.rcode = Dns.Rcode.noError ∧
    ∀ r ∈ raw.additional, r.type = Dns.RType.opt → r.ttl >>> 24 = 0

section Deciding

variable (exchanges : Exchanges) (w : World) (budget : Nat) (f : Forwarder) (ip : Net.Ip)
  (id : UInt16) (query : Bytes) (before : Traffic)

/-- The reply that decides an attempt, and how it was carried. -/
inductive Decisive : Carrier → Bytes → Prop where
  | first {bs : Bytes} {left : Nat}
    (answered : exchanges (f.opening ip query) before budget = some (bs, left))
    (stands : ¬ f.Repeats id bs) : Decisive (f.opening ip query).carrier bs
  | again {bs bs' : Bytes} {left left' : Nat}
    (answered : exchanges (f.opening ip query) before budget = some (bs, left))
    (repeats : f.Repeats id bs)
    (repeated : exchanges (f.repetition ip query) (f.opening ip query :: before) left =
      some (bs', left')) : Decisive .stream bs'

/-- An attempt is decided by what its exchanges come to. -/
structure Decided : Prop where
  /-- It comes down to a message exactly if the deciding reply is that message, bears the number of
  the question and says no error. -/
  outcome (o : Outcome) : (attempt w budget f id query before).1 = .ok o ↔
    ∃ bs, Decisive exchanges budget f ip id query before o.carrier bs ∧ Accepts id bs o.reply
  /-- Unless the first reply is a truncated datagram that bears the number, nothing else is sent. -/
  once : (∀ bs left, exchanges (f.opening ip query) before budget = some (bs, left) →
      ¬ f.Repeats id bs) →
    (attempt w budget f id query before).2 = onWire (f.opening ip query) budget ++ before
  /-- Otherwise the same bytes go to the same endpoint once more, over a stream, and the attempt
  fails if this exchange does. -/
  twice (bs : Bytes) (left : Nat) : exchanges (f.opening ip query) before budget = some (bs, left) →
    f.Repeats id bs →
    (attempt w budget f id query before).2 =
      onWire (f.repetition ip query) left ++ f.opening ip query :: before ∧
    (exchanges (f.repetition ip query) (f.opening ip query :: before) left = none →
      ∃ cause, (attempt w budget f id query before).1 = .error cause)

/-- What the deciding reply comes to. -/
def judge (carrier : Carrier) (bs : Bytes) : Except Failure Outcome := do
  let reply ← readReply id bs
  if reply.header.rcode = Dns.Rcode.noError then return ⟨carrier, reply⟩
  else throw (.status f.text reply.header.rcode)

end Deciding

/-! ## Attempts -/

section Attempts

variable {w : World} {budget left left' : Nat} {f : Forwarder} {ip : Net.Ip} {id : UInt16}
  {query bs bs' : Bytes} {before traffic : Traffic} {st : Traffic × Nat}

theorem accepts_iff {m : Dns.Message} : Accepts id bs m ↔
    readReply id bs = .ok m ∧ m.header.rcode = Dns.Rcode.noError := by
  rw [readReply_eq_ok_iff]
  constructor
  · rintro ⟨hparses, hbears, hnone⟩
    exact ⟨⟨hparses, hbears⟩, (Dns.Message.rcode_eq_noError_iff hparses).mpr hnone⟩
  · rintro ⟨⟨hparses, hbears⟩, hnone⟩
    exact ⟨hparses, hbears, (Dns.Message.rcode_eq_noError_iff hparses).mp hnone⟩

theorem judge_eq_ok_iff {carrier : Carrier} {o : Outcome} :
    judge f id carrier bs = .ok o ↔ carrier = o.carrier ∧ Accepts id bs o.reply := by
  rw [accepts_iff]
  unfold judge
  cases readReply id bs with
  | error cause =>
    constructor
    · rintro ⟨⟩
    · rintro ⟨-, ⟨⟩, -⟩
  | ok m =>
    show (if _ then _ else _) = _ ↔ _
    split
    · rename_i hnone
      constructor
      · rintro ⟨⟩
        exact ⟨rfl, rfl, hnone⟩
      · rintro ⟨rfl, ⟨⟩, -⟩
        rfl
    · rename_i herror
      constructor
      · rintro ⟨⟩
      · rintro ⟨-, ⟨⟩, hnone⟩
        exact absurd hnone herror

theorem repetition_addressed : (f.repetition ip query).Addressed := by
  rintro e host ⟨⟩

theorem liftM_judge (carrier : Carrier) (bs : Bytes) :
    (liftM (judge f id carrier bs) : Act Outcome) = (do
      let m ← readReply id bs
      if m.header.rcode = Dns.Rcode.noError then pure ⟨carrier, m⟩
      else throw (.status f.text m.header.rcode)) := by
  unfold judge
  cases readReply id bs with
  | error cause => rfl
  | ok m =>
    show (liftM (if _ then _ else _ : Except Failure Outcome) : Act Outcome) = if _ then _ else _
    split <;> rfl

theorem run_settle_stands {first : Sent} (h : ¬ f.Repeats id bs) :
    (settle w f id query first bs).run st = (judge f id first.carrier bs, st) := by
  rw [← run_liftM (judge f id first.carrier bs), liftM_judge]
  unfold settle
  cases hread : readReply id bs with
  | error cause => rfl
  | ok m =>
    obtain ⟨hparses, hid⟩ := readReply_eq_ok_iff.mp hread
    have hstands : ¬ (m.header.truncated = true ∧ f.scheme = .udp) := fun hcut =>
      h ⟨hcut.2, m, hparses, hid, hcut.1⟩
    rw [run_bind_ok (run_liftM _), run_bind_ok (run_liftM _), if_neg hstands, pure_bind]

variable (hip : Net.Ip.parse? f.host = some ip)

include hip

theorem opening_addressed : (f.opening ip query).Addressed := by
  intro e host htarget
  unfold Forwarder.opening at htarget
  cases hscheme : f.scheme with
  | udp | tcp | https =>
    rw [hscheme] at htarget
    cases htarget
  | tls =>
    rw [hscheme] at htarget
    cases htarget
    rw [hip]
    rfl

theorem run_endpointOf : (endpointOf w f).run st = (.ok (f.endpoint ip), st) := by
  unfold endpointOf
  rw [hip]
  rfl

theorem run_firstMessage : (firstMessage w f query).run st = (.ok (f.opening ip query), st) := by
  unfold firstMessage Forwarder.opening
  cases f.scheme with
  | udp => exact run_bind_ok (run_endpointOf hip) _
  | tcp => exact run_bind_ok (run_endpointOf hip) _
  | tls => exact run_bind_ok (run_endpointOf hip) _
  | https => rfl

theorem run_ask : (ask w f id query).run (before, budget) =
    (needTime f.text >>= fun _ => send w (f.opening ip query) >>=
      settle w f id query (f.opening ip query)).run (before, budget) := by
  rw [ask_eq, run_needTime_bind, run_needTime_bind]
  refine ite_congr rfl (fun _ => rfl) fun hbudget => ?_
  -- making the message takes no time: the second look at the clock sees what the first one saw
  rw [run_bind_ok (run_firstMessage hip), run_needTime_bind, if_neg hbudget]

theorem run_settle_repeats {first : Sent} (h : f.Repeats id bs) :
    (settle w f id query first bs).run (traffic, left) =
      (needTime f.text >>= fun _ => send w (f.repetition ip query) >>= fun again =>
        liftM (judge f id .stream again) : Act Outcome).run (traffic, left) := by
  obtain ⟨hudp, m, hparses, hid, hcut⟩ := h
  have hread : readReply id bs = .ok m := readReply_eq_ok_iff.mpr ⟨hparses, hid⟩
  unfold settle
  rw [hread]
  refine (run_bind_ok (run_liftM _) _).trans ?_
  dsimp only
  rw [if_pos ⟨hcut, hudp⟩]
  simp only [pure_bind]
  rw [run_needTime_bind, run_needTime_bind]
  refine ite_congr rfl (fun _ => rfl) fun hleft => ?_
  rw [run_bind_ok (run_endpointOf hip), run_needTime_bind, if_neg hleft]
  refine congrArg (fun rest => (send w (f.repetition ip query) >>= rest).run _)
    (funext fun again => ?_)
  rw [liftM_judge]

variable (id) in
theorem attempt_unanswered (h : received? w (f.opening ip query) before budget = none) :
    ∃ cause, attempt w budget f id query before =
      (.error cause, onWire (f.opening ip query) budget ++ before) := by
  obtain ⟨cause, left, hrun⟩ := run_exchange_none f.text (settle w f id query (f.opening ip query))
    (opening_addressed hip) h
  refine ⟨cause, ?_⟩
  unfold attempt
  rw [run_ask hip, hrun]

theorem attempt_stands (h : received? w (f.opening ip query) before budget = some (bs, left))
    (hstands : ¬ f.Repeats id bs) :
    attempt w budget f id query before =
      (judge f id (f.opening ip query).carrier bs, f.opening ip query :: before) := by
  have hrun := run_exchange_some f.text (settle w f id query (f.opening ip query))
    (opening_addressed hip) h
  unfold attempt
  rw [run_ask hip, hrun, run_settle_stands hstands]

section Repeats

variable (h : received? w (f.opening ip query) before budget = some (bs, left))
  (hrepeats : f.Repeats id bs)

include h hrepeats

theorem attempt_repeats_unanswered
    (h' : received? w (f.repetition ip query) (f.opening ip query :: before) left = none) :
    ∃ cause, attempt w budget f id query before =
      (.error cause, onWire (f.repetition ip query) left ++ f.opening ip query :: before) := by
  have hrun := run_exchange_some f.text (settle w f id query (f.opening ip query))
    (opening_addressed hip) h
  obtain ⟨cause, left', hrun'⟩ := run_exchange_none f.text
    (fun again => liftM (judge f id .stream again)) repetition_addressed h'
  refine ⟨cause, ?_⟩
  unfold attempt
  rw [run_ask hip, hrun, run_settle_repeats hip hrepeats, hrun']

theorem attempt_repeats
    (h' : received? w (f.repetition ip query) (f.opening ip query :: before) left =
      some (bs', left')) :
    attempt w budget f id query before =
      (judge f id .stream bs', f.repetition ip query :: f.opening ip query :: before) := by
  have hrun := run_exchange_some f.text (settle w f id query (f.opening ip query))
    (opening_addressed hip) h
  have hrun' := run_exchange_some f.text
    (fun again => (liftM (judge f id .stream again) : Act Outcome)) repetition_addressed h'
  unfold attempt
  rw [run_ask hip, hrun, run_settle_repeats hip hrepeats, hrun', run_liftM]

end Repeats

theorem attempt_ok_iff {o : Outcome} : (attempt w budget f id query before).1 = .ok o ↔
    ∃ bs, Decisive (received? w) budget f ip id query before o.carrier bs ∧
      Accepts id bs o.reply := by
  constructor
  · intro hok
    rcases h : received? w (f.opening ip query) before budget with _ | ⟨bs, left⟩
    · obtain ⟨cause, hrun⟩ := attempt_unanswered id hip h
      rw [hrun] at hok
      cases hok
    by_cases hrepeats : f.Repeats id bs
    · rcases h' : received? w (f.repetition ip query) (f.opening ip query :: before) left with
        _ | ⟨bs', left'⟩
      · obtain ⟨cause, hrun⟩ := attempt_repeats_unanswered hip h hrepeats h'
        rw [hrun] at hok
        cases hok
      · rw [attempt_repeats hip h hrepeats h', judge_eq_ok_iff] at hok
        exact ⟨bs', hok.1 ▸ .again h hrepeats h', hok.2⟩
    · rw [attempt_stands hip h hrepeats, judge_eq_ok_iff] at hok
      exact ⟨bs, hok.1 ▸ .first h hrepeats, hok.2⟩
  · rintro ⟨bs, hdecisive, haccepts⟩
    generalize hcarrier : o.carrier = carrier at hdecisive
    cases hdecisive with
    | first answered stands =>
      rw [attempt_stands hip answered stands]
      exact judge_eq_ok_iff.mpr ⟨hcarrier.symm, haccepts⟩
    | again answered repeats repeated =>
      rw [attempt_repeats hip answered repeats repeated]
      exact judge_eq_ok_iff.mpr ⟨hcarrier.symm, haccepts⟩

/-- What the program makes of the exchanges decides. -/
theorem attempt_decided : Decided (received? w) w budget f ip id query before where
  outcome _ := attempt_ok_iff hip
  once honce := by
    rcases h : received? w (f.opening ip query) before budget with _ | ⟨bs, left⟩
    · obtain ⟨cause, hrun⟩ := attempt_unanswered id hip h
      rw [hrun]
    · rw [attempt_stands hip h (honce bs left h), onWire_of_received (opening_addressed hip) h]
      rfl
  twice bs left h hrepeats := by
    rcases h' : received? w (f.repetition ip query) (f.opening ip query :: before) left with
      _ | ⟨bs', left'⟩
    · obtain ⟨cause, hrun⟩ := attempt_repeats_unanswered hip h hrepeats h'
      rw [hrun]
      exact ⟨rfl, fun _ => ⟨cause, rfl⟩⟩
    · rw [attempt_repeats hip h hrepeats h', onWire_of_received repetition_addressed h']
      exact ⟨rfl, fun hnone => by cases hnone⟩

end Attempts

end DnsGate.Forward
