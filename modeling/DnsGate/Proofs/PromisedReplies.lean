import DnsGate.Proofs.OneAttempt
import DnsGate.Proofs.WebTrips

/-!
Attempts as they are promised (`AsPromised`): an exchange comes to the first answer of its server
whenever that comes within the time of the attempt, and there is no exchange but the first one and
the repetition of a truncated datagram.  Web servers are reached through a client that has a limit
of its own and follows redirects.  Main statement: the promise is kept but for web servers whose
first answer is a redirect that comes while the client waits, and those with an acceptable answer
within the time of the attempt but not within the client's limit (`attempt_as_promised_iff`).
-/

namespace DnsGate.Forward

open Act

/-! ## The promise -/

/-- What comes back for a datagram or on a stream: after how long, and the reply or why there is
none.  The reply is what an exchange on the stream returns, or a datagram as far as there is room
for it. -/
def Sent.reply (s : Sent) : Reaction → Nat × Except Failure Bytes
  | .broken => (0, .error (.connection s.carrier))
  | .silent => (0, .error (.timeout s.timeoutName))
  | .bytes delay bs =>
    (delay, if s.Framed then (exchange s.bytes bs).2.mapError .stream
      else .ok (bs.take maxDatagram))

/-- What a web server answers to the first request, whatever others answer to which it redirects.
The reply is the body, with status 200 only. -/
def Visit.reply (url : String) : Visit → Nat × Except Failure Bytes
  | ⟨r :: _, _⟩ => (r.delay, .error (.httpStatus url r.status))
  | ⟨[], .broken⟩ => (0, .error (.connection .https))
  | ⟨[], .silent⟩ => (0, .error (.timeout url))
  | ⟨[], .answer delay status body⟩ =>
    (delay, if status = 200 then .ok body else .error (.httpStatus url status))

/-- What comes back for a message. -/
def World.reply (w : World) (traffic : Traffic) (s : Sent) : Nat × Except Failure Bytes :=
  match s.target with
  | .url u => (w.visit traffic s).reply u
  | _ => s.reply (w.react traffic s)

/-- What an exchange is promised to come to: the reply of its server, if it comes within the time
that is left. -/
def answer? (w : World) : Exchanges := fun s traffic left =>
  let (delay, reply) := w.reply traffic s
  if left = 0 ∨ s.Oversized ∨ left < delay then none else reply.toOption.map (·, left - delay)

/-- What the web client meets when a forwarder is asked. -/
def Forwarder.visit (w : World) (f : Forwarder) (query : Bytes) (before : Traffic) : Visit :=
  w.visit before ⟨.https, .url f.url, query⟩

/-- What it does then. -/
def Forwarder.trip (w : World) (f : Forwarder) (query : Bytes) (before : Traffic) (budget : Nat) :
    Trip := (f.visit w query before).trip budget ⟨f.url, some query⟩

/-- The promise of an attempt: the replies of the servers decide it, whenever they come within its
budget, and a web server is asked once. -/
structure AsPromised (w : World) (budget : Nat) (f : Forwarder) (ip : Net.Ip) (id : UInt16)
    (query : Bytes) (before : Traffic) : Prop
    extends Decided (answer? w) w budget f ip id query before where
  /-- There is one request, with the query, and none to which a redirect leads. -/
  single : f.scheme = .https → budget ≠ 0 →
    (f.trip w query before budget).requests = [⟨f.url, some query⟩]

/-- A web server sends the client on while it waits. -/
def Forwarder.Redirects (w : World) (f : Forwarder) (query : Bytes) (before : Traffic)
    (budget : Nat) : Prop :=
  ∃ r ∈ (f.visit w query before).redirects.head?, r.delay ≤ min budget webLimit

/-- An acceptable answer comes within the budget, but too late for the client. -/
def Forwarder.TooSlow (w : World) (f : Forwarder) (id : UInt16) (query : Bytes) (before : Traffic)
    (budget : Nat) : Prop :=
  ∃ delay body m, f.visit w query before = ⟨[], .answer delay 200 body⟩ ∧
    webLimit < delay ∧ delay ≤ budget ∧ Accepts id body m

section Promise

variable {w : World} {s : Sent} {traffic : Traffic} {left left' : Nat} {bs : Bytes}

/-- A reply is received if it comes in time. -/
theorem run_receive (reaction : Reaction) :
    (receive s reaction).run (traffic, left) =
      if left < (s.reply reaction).1 then (.error (.timeout s.timeoutName), traffic, 0)
      else ((s.reply reaction).2, traffic, left - (s.reply reaction).1) := by
  cases reaction with
  | broken => rfl
  | silent => rfl
  | bytes delay bs =>
    refine (run_spend_bind _ delay _).trans (ite_congr rfl (fun _ => rfl) fun _ => ?_)
    unfold Sent.reply
    dsimp only
    by_cases hframed : s.Framed
    · rw [if_pos hframed, if_pos hframed]
      cases (exchange s.bytes bs).2 <;> rfl
    · rw [if_neg hframed, if_neg hframed]
      rfl

theorem answer?_eq_some_iff : answer? w s traffic left = some (bs, left') ↔
    left ≠ 0 ∧ ¬ s.Oversized ∧
      ∃ delay ≤ left, w.reply traffic s = (delay, .ok bs) ∧ left' = left - delay := by
  unfold answer?
  obtain ⟨delay, reply⟩ := w.reply traffic s
  dsimp only
  by_cases hmade : left = 0 ∨ s.Oversized ∨ left < delay
  · rw [if_pos hmade]
    refine iff_of_false (by simp) ?_
    rintro ⟨hleft, hfits, delay', hdelay, ⟨⟩, -⟩
    rcases hmade with h | h | h
    · exact hleft h
    · exact hfits h
    · exact absurd h (Nat.not_lt.mpr hdelay)
  · rw [if_neg hmade]
    obtain ⟨hleft, hfits, hdelay⟩ : left ≠ 0 ∧ ¬ s.Oversized ∧ ¬ left < delay := by
      rwa [not_or, not_or] at hmade
    cases reply with
    | error cause => simp [Except.toOption]
    | ok body =>
      simp only [Except.toOption, Option.map_some, Option.some.injEq, Prod.mk.injEq,
        Except.ok.injEq]
      constructor
      · rintro ⟨rfl, rfl⟩
        exact ⟨hleft, hfits, delay, Nat.le_of_not_lt hdelay, ⟨rfl, rfl⟩, rfl⟩
      · rintro ⟨-, -, delay', -, ⟨rfl, rfl⟩, rfl⟩
        exact ⟨rfl, rfl⟩

/-- Datagrams and streams keep the promise. -/
theorem received?_eq_answer? (haddressed : s.Addressed) (hnoWeb : ∀ u, s.target ≠ .url u) :
    received? w s traffic left = answer? w s traffic left := by
  have hreply : w.reply traffic s = s.reply (w.react traffic s) := by
    unfold World.reply
    split
    · exact absurd ‹_› (hnoWeb _)
    · rfl
  have hawait : awaitReply w traffic s = receive s (w.react traffic s) := by
    unfold awaitReply
    split
    · exact absurd ‹_› (hnoWeb _)
    · rfl
  unfold received? answer?
  rw [hreply]
  dsimp only
  by_cases hleft : left = 0
  · rw [if_pos hleft, if_pos (Or.inl hleft)]
  rw [if_neg hleft]
  cases hrefusal : s.refusal? w with
  | some cause =>
    rw [if_pos (Or.inr (Or.inl ((refused_iff haddressed).mp ⟨cause, hrefusal⟩))),
      run_send_refused hrefusal]
    rfl
  | none =>
    have hfits := (refusal?_eq_none_iff haddressed).mp hrefusal
    rw [run_send hrefusal, hawait, run_receive]
    by_cases hlate : left < (s.reply (w.react traffic s)).1
    · rw [if_pos hlate, if_pos (Or.inr (Or.inr hlate))]
      rfl
    · rw [if_neg hlate, if_neg (by simp only [hleft, hfits, hlate, or_self, not_false_eq_true])]

end Promise

/-! ## Web servers -/

theorem Arrival.reply_eq_ok_iff (url : String) (left : Nat) {arrival : Arrival} {bs : Bytes} :
    arrival.reply url left = .ok bs ↔ arrival = .answer 200 bs := by
  cases arrival with
  | broken => simp [reply]
  | late => simp [reply]
  | answer status body =>
    dsimp only [reply]
    split
    · rename_i hstatus
      simp [hstatus]
    · rename_i hstatus
      simp [hstatus]

/-- The first answer of a web server has a body if it is one with status 200. -/
theorem Visit.reply_eq_ok_iff (url : String) {v : Visit} {delay : Nat} {bs : Bytes} :
    v.reply url = (delay, .ok bs) ↔ v = ⟨[], .answer delay 200 bs⟩ := by
  obtain ⟨redirects, ending⟩ := v
  cases redirects with
  | cons r rest => simp [reply]
  | nil =>
    cases ending with
    | broken => simp [reply]
    | silent => simp [reply]
    | answer delay' status body =>
      dsimp only [reply]
      split
      · rename_i hstatus
        simp [hstatus]
      · rename_i hstatus
        simp [hstatus]

section Web

variable {w : World} {f : Forwarder} {ip : Net.Ip} {id : UInt16} {query bs : Bytes}
  {before : Traffic} {budget left : Nat}

namespace Forwarder

theorem not_redirects_of_visit {ending : Ending} (h : f.visit w query before = ⟨[], ending⟩) :
    ¬ f.Redirects w query before budget := by
  unfold Redirects
  rw [h]
  rintro ⟨r, ⟨⟩, -⟩

theorem trip_single_iff :
    (f.trip w query before budget).requests = [⟨f.url, some query⟩] ↔
      ¬ f.Redirects w query before budget := by
  unfold trip Redirects
  rw [Visit.trip_requests_eq_iff]
  constructor
  · rintro hfirst ⟨r, hr, hcame⟩
    exact Nat.not_le.mpr (hfirst r hr) hcame
  · intro hdirect r hr
    exact Nat.lt_of_not_le fun hcame => hdirect ⟨r, hr, hcame⟩

/-- Unless it is redirected, the client has the answer that comes while it waits. -/
theorem trip_answer_iff {delay status : Nat} {body : Bytes}
    (h : ¬ f.Redirects w query before budget) :
    (f.trip w query before budget).time = delay ∧
        (f.trip w query before budget).arrival = .answer status body ↔
      f.visit w query before = ⟨[], .answer delay status body⟩ ∧ delay ≤ min budget webLimit :=
  Visit.trip_answer_iff fun r hr => Nat.lt_of_not_le fun hcame => h ⟨r, hr, hcame⟩

end Forwarder

variable (hhttps : f.scheme = .https)

include hhttps

theorem not_repeats_of_web (bs : Bytes) : ¬ f.Repeats id bs := by
  rintro ⟨hudp, -⟩
  rw [hhttps] at hudp
  cases hudp

theorem Forwarder.opening_web : f.opening ip query = ⟨.https, .url f.url, query⟩ := by
  unfold opening
  rw [hhttps]

theorem run_send_web : (send w (f.opening ip query)).run (before, budget) =
    ((f.trip w query before budget).arrival.reply f.url budget, f.opening ip query :: before,
      budget - (f.trip w query before budget).time) := by
  have hrefusal : (f.opening ip query).refusal? w = none := by
    rw [f.opening_web hhttps]
    rfl
  rw [run_send hrefusal, f.opening_web hhttps]
  exact run_liftM _

/-- What is received from a web server is the answer at the end of the client's trip. -/
theorem received?_web : received? w (f.opening ip query) before budget = some (bs, left) ↔
    budget ≠ 0 ∧ (f.trip w query before budget).arrival = .answer 200 bs ∧
      left = budget - (f.trip w query before budget).time := by
  unfold received?
  rw [run_send_web hhttps]
  by_cases hbudget : budget = 0
  · simp [hbudget]
  · rw [if_neg hbudget, ← Arrival.reply_eq_ok_iff f.url budget]
    cases (f.trip w query before budget).arrival.reply f.url budget with
    | error cause => simp [Except.toOption]
    | ok body => simp [Except.toOption, hbudget, eq_comm]

/-- What is promised of a web server is its own first answer. -/
theorem answer?_web : answer? w (f.opening ip query) before budget = some (bs, left) ↔
    budget ≠ 0 ∧ ∃ delay ≤ budget, f.visit w query before = ⟨[], .answer delay 200 bs⟩ ∧
      left = budget - delay := by
  have hreply : w.reply before (f.opening ip query) = (f.visit w query before).reply f.url := by
    rw [f.opening_web hhttps]
    rfl
  have hfits : ¬ (f.opening ip query).Oversized := by
    rw [f.opening_web hhttps]
    simp [Sent.Framed]
  simp only [answer?_eq_some_iff, hreply, Visit.reply_eq_ok_iff, hfits, not_false_eq_true, true_and]

/-- A web server that does not redirect in time keeps the promise with every acceptable reply,
unless it is too slow. -/
theorem received?_web_eq_answer?_iff {m : Dns.Message} (haccepts : Accepts id bs m)
    (hdirect : budget ≠ 0 → ¬ f.Redirects w query before budget)
    (hfast : ¬ f.TooSlow w id query before budget) :
    received? w (f.opening ip query) before budget = some (bs, left) ↔
      answer? w (f.opening ip query) before budget = some (bs, left) := by
  rw [received?_web hhttps, answer?_web hhttps]
  refine and_congr_right fun hbudget => ?_
  have hdirect' := hdirect hbudget
  constructor
  · rintro ⟨harrival, rfl⟩
    obtain ⟨hvisit, hdelay⟩ := (Forwarder.trip_answer_iff hdirect').mp ⟨rfl, harrival⟩
    exact ⟨_, Nat.le_trans hdelay (Nat.min_le_left _ _), hvisit, rfl⟩
  · rintro ⟨delay, hdelay, hvisit, rfl⟩
    have hlimit : delay ≤ webLimit := Nat.le_of_not_lt fun hslow =>
      hfast ⟨delay, bs, m, hvisit, hslow, hdelay, haccepts⟩
    obtain ⟨htime, harrival⟩ := (Forwarder.trip_answer_iff hdirect').mpr
      ⟨hvisit, Nat.le_min.mpr ⟨hdelay, hlimit⟩⟩
    exact ⟨harrival, by rw [htime]⟩

end Web

/-! ## When the promise is kept -/

/-- Only with a first reply is there one that decides. -/
theorem Decisive.answered {exchanges : Exchanges} {budget : Nat} {f : Forwarder} {ip : Net.Ip}
    {id : UInt16} {query : Bytes} {before : Traffic} {carrier : Carrier} {bs : Bytes}
    (h : Decisive exchanges budget f ip id query before carrier bs) :
    ∃ bs left, exchanges (f.opening ip query) before budget = some (bs, left) := by
  cases h with
  | first answered => exact ⟨_, _, answered⟩
  | again answered => exact ⟨_, _, answered⟩

section Agreement

variable {exchanges exchanges' : Exchanges} {w : World} {budget : Nat} {f : Forwarder} {ip : Net.Ip}
  {id : UInt16} {query : Bytes} {before : Traffic}
  (hfirst : ∀ bs left, (f.Repeats id bs ∨ ∃ m, Accepts id bs m) →
    (exchanges (f.opening ip query) before budget = some (bs, left) ↔
      exchanges' (f.opening ip query) before budget = some (bs, left)))
  (hagain : ∀ left, exchanges (f.repetition ip query) (f.opening ip query :: before) left =
    exchanges' (f.repetition ip query) (f.opening ip query :: before) left)

include hfirst hagain

theorem decisive_iff_of_agree {carrier : Carrier} {bs : Bytes} {m : Dns.Message}
    (haccepts : Accepts id bs m) : Decisive exchanges budget f ip id query before carrier bs ↔
      Decisive exchanges' budget f ip id query before carrier bs := by
  constructor
  · intro hdecisive
    cases hdecisive with
    | first answered stands =>
      exact .first ((hfirst _ _ (Or.inr ⟨m, haccepts⟩)).mp answered) stands
    | again answered repeats repeated =>
      rw [hagain] at repeated
      exact .again ((hfirst _ _ (Or.inl repeats)).mp answered) repeats repeated
  · intro hdecisive
    cases hdecisive with
    | first answered stands =>
      exact .first ((hfirst _ _ (Or.inr ⟨m, haccepts⟩)).mpr answered) stands
    | again answered repeats repeated =>
      rw [← hagain] at repeated
      exact .again ((hfirst _ _ (Or.inl repeats)).mpr answered) repeats repeated

/-- What decides does not depend on replies that are neither acceptable nor asked for again. -/
theorem Decided.of_agree (h : Decided exchanges w budget f ip id query before) :
    Decided exchanges' w budget f ip id query before where
  outcome o := by
    rw [h.outcome]
    refine exists_congr fun bs => and_congr_left fun haccepts => ?_
    exact decisive_iff_of_agree hfirst hagain haccepts
  once honce := h.once fun bs left hbs hrepeats =>
    honce bs left ((hfirst bs left (Or.inl hrepeats)).mp hbs) hrepeats
  twice bs left hbs hrepeats := by
    rw [← hagain]
    exact h.twice bs left ((hfirst bs left (Or.inl hrepeats)).mpr hbs) hrepeats

end Agreement

section Kept

variable {w : World} {budget : Nat} {f : Forwarder} {ip : Net.Ip} {id : UInt16} {query : Bytes}
  {before : Traffic}

variable (hip : Net.Ip.parse? f.host = some ip)

include hip

theorem asPromised_of_not_web (hscheme : f.scheme ≠ .https) :
    AsPromised w budget f ip id query before where
  toDecided := by
    have hnoWeb : ∀ u, (f.opening ip query).target ≠ .url u := by
      unfold Forwarder.opening
      cases hf : f.scheme with
      | https => exact absurd hf hscheme
      | udp | tcp | tls => rintro u ⟨⟩
    refine (attempt_decided hip).of_agree (fun bs left _ => ?_) fun left => ?_
    · rw [received?_eq_answer? (opening_addressed hip) hnoWeb]
    · exact received?_eq_answer? repetition_addressed (by rintro u ⟨⟩)
  single hhttps := absurd hhttps hscheme

theorem asPromised_of_web (hhttps : f.scheme = .https)
    (hdirect : budget ≠ 0 → ¬ f.Redirects w query before budget)
    (hfast : ¬ f.TooSlow w id query before budget) :
    AsPromised w budget f ip id query before where
  toDecided := by
    refine (attempt_decided hip).of_agree (fun bs left hmatters => ?_) fun left => ?_
    · rcases hmatters with hrepeats | ⟨m, haccepts⟩
      · exact absurd hrepeats (not_repeats_of_web hhttps bs)
      · exact received?_web_eq_answer?_iff hhttps haccepts hdirect hfast
    · exact received?_eq_answer? repetition_addressed (by rintro u ⟨⟩)
  single _ hbudget := Forwarder.trip_single_iff.mpr (hdirect hbudget)

/-- A web server that is too slow has an acceptable answer, but none is received. -/
theorem not_asPromised_of_tooSlow (hhttps : f.scheme = .https)
    (hslow : f.TooSlow w id query before budget) : ¬ AsPromised w budget f ip id query before := by
  obtain ⟨delay, body, m, hvisit, hlimit, hbudget, haccepts⟩ := hslow
  intro h
  have hanswer : answer? w (f.opening ip query) before budget = some (body, budget - delay) :=
    (answer?_web hhttps).mpr ⟨by omega, delay, hbudget, hvisit, rfl⟩
  have hok := (h.outcome ⟨(f.opening ip query).carrier, m⟩).mpr
    ⟨body, .first hanswer (not_repeats_of_web hhttps body), haccepts⟩
  obtain ⟨bs, hdecisive, -⟩ := ((attempt_decided hip).outcome _).mp hok
  obtain ⟨bs', left, hreceived⟩ := hdecisive.answered
  obtain ⟨-, harrival, -⟩ := (received?_web hhttps).mp hreceived
  obtain ⟨hvisit', hdelay⟩ :=
    (Forwarder.trip_answer_iff (Forwarder.not_redirects_of_visit hvisit)).mp ⟨rfl, harrival⟩
  obtain ⟨-, hending⟩ := Visit.mk.inj (hvisit.symm.trans hvisit')
  obtain ⟨rfl, -, -⟩ := Ending.answer.inj hending
  exact absurd (Nat.le_trans hdelay (Nat.min_le_right _ _)) (Nat.not_le.mpr hlimit)

/-- A web reply with another status is an error, whatever its body. -/
theorem attempt_httpStatus {delay status : Nat} {body : Bytes} (hhttps : f.scheme = .https)
    (hvisit : f.visit w query before = ⟨[], .answer delay status body⟩) (hstatus : status ≠ 200)
    (hbudget : budget ≠ 0) (hdelay : delay ≤ min budget webLimit) :
    attempt w budget f id query before =
      (.error (.httpStatus f.url status), f.opening ip query :: before) := by
  obtain ⟨-, harrival⟩ :=
    (Forwarder.trip_answer_iff (Forwarder.not_redirects_of_visit hvisit)).mpr ⟨hvisit, hdelay⟩
  have hsend : (send w (f.opening ip query)).run (before, budget) = _ := run_send_web hhttps
  rw [harrival, Arrival.reply, if_neg hstatus] at hsend
  unfold attempt
  rw [run_ask hip, run_needTime_bind, if_neg hbudget, run_bind_error hsend]

end Kept

/-- An attempt on a forwarder at an address is decided by what the program makes of its exchanges.
It is as promised, decided by the replies of the servers whenever these come within its budget and
with no exchange but the first and the repetition of a truncated datagram, unless the forwarder is
a web server that redirects while the web client waits, or has an acceptable answer within the
budget but not within the client's own limit.  What is received of a web server is the body at the
end of the client's trip, if its status is 200; nothing is read of an answer with another status. -/
theorem attempt_as_promised_iff (w : World) (budget : Nat) (id : UInt16) (query : Bytes)
    (before : Traffic) {f : Forwarder} {ip : Net.Ip} (hip : Net.Ip.parse? f.host = some ip) :
    Decided (received? w) w budget f ip id query before ∧
    (AsPromised w budget f ip id query before ↔
      (f.scheme = .https → budget ≠ 0 →
        ¬ f.Redirects w query before budget ∧ ¬ f.TooSlow w id query before budget)) ∧
    (f.scheme = .https → ∀ bs left,
      received? w (f.opening ip query) before budget = some (bs, left) ↔
        budget ≠ 0 ∧ (f.trip w query before budget).arrival = .answer 200 bs ∧
          left = budget - (f.trip w query before budget).time) ∧
    ∀ delay status body, f.scheme = .https →
      f.visit w query before = ⟨[], .answer delay status body⟩ → status ≠ 200 → budget ≠ 0 →
      delay ≤ min budget webLimit →
      attempt w budget f id query before =
        (.error (.httpStatus f.url status), f.opening ip query :: before) := by
  refine ⟨attempt_decided hip, ⟨fun h hhttps hbudget => ?_, fun h => ?_⟩,
    fun hhttps bs left => received?_web hhttps, fun delay status body => attempt_httpStatus hip⟩
  · exact ⟨Forwarder.trip_single_iff.mp (h.single hhttps hbudget),
      fun hslow => not_asPromised_of_tooSlow hip hhttps hslow h⟩
  · by_cases hhttps : f.scheme = .https
    · refine asPromised_of_web hip hhttps (fun hbudget => (h hhttps hbudget).1) fun hslow => ?_
      have hbudget : budget ≠ 0 := by
        obtain ⟨delay, -, -, -, hlimit, hdelay, -⟩ := hslow
        omega
      exact (h hhttps hbudget).2 hslow
    · exact asPromised_of_not_web hip hhttps

/-! ## Forwarders at an address -/

/-- The bytes of a message without questions, answers and error. -/
def bareReply : Bytes := [0, 7, 0x80, 0, 0, 0, 0, 0, 0, 0, 0, 0]

theorem bareReply_accepted : Accepts 7 bareReply { header := { id := 7, response := true } } :=
  ⟨by decide +kernel, rfl, { header := { id := 7, response := true } }, by decide +kernel, rfl,
    by decide⟩

/-- A forwarder at an address. -/
def plainForwarder : Forwarder := ⟨.udp, "192.0.2.53", 53, none, false⟩

/-- A web server at an address. -/
def webForwarder : Forwarder := ⟨.https, "192.0.2.53", 443, none, false⟩

/-- A world that answers a datagram with a truncated failure and a stream without error. -/
def cutShort : World :=
  { World.unreachable with
    react := fun _ s =>
      if s.carrier = .datagram then .bytes 10 [0, 7, 0x82, 2, 0, 0, 0, 0, 0, 0, 0, 0]
      else .bytes 20 (Chunk.wrap bareReply) }

/-- There the second exchange decides. -/
theorem repetition_decides :
    let ip : Net.Ip := .v4 ⟨192, 0, 2, 53⟩
    let query : Bytes := [0, 7]
    let after := attempt cutShort 100 plainForwarder 7 query []
    Net.Ip.parse? plainForwarder.host = some ip ∧
      after.1 = .ok ⟨.stream, { header := { id := 7, response := true } }⟩ ∧
      after.2 = [plainForwarder.repetition ip query, plainForwarder.opening ip query] := by
  intro ip query after
  have hip : Net.Ip.parse? plainForwarder.host = some ip := by decide +kernel
  have hfirst : answer? cutShort (plainForwarder.opening ip query) [] 100 =
      some ([0, 7, 0x82, 2, 0, 0, 0, 0, 0, 0, 0, 0], 90) := by decide +kernel
  have hrepeats : plainForwarder.Repeats 7 [0, 7, 0x82, 2, 0, 0, 0, 0, 0, 0, 0, 0] :=
    ⟨rfl, { header := { id := 7, response := true, truncated := true, rcode := 2 } },
      by decide +kernel, rfl, rfl⟩
  have hagain : answer? cutShort (plainForwarder.repetition ip query)
      [plainForwarder.opening ip query] 90 = some (bareReply, 70) := by decide +kernel
  obtain ⟨-, hpromised, -⟩ := attempt_as_promised_iff cutShort 100 7 query [] hip
  have hkept := hpromised.mpr (by rintro ⟨⟩)
  refine ⟨hip, (hkept.outcome _).mpr ⟨_, .again hfirst hrepeats hagain, bareReply_accepted⟩, ?_⟩
  rw [show after.2 = _ from (hkept.twice _ _ hfirst hrepeats).1]
  rfl

/-- A world in which a web server takes twelve seconds to answer. -/
def slowWeb : World :=
  { World.unreachable with visit := fun _ _ => ⟨[], .answer 12000 200 bareReply⟩ }

/-- A world in which a web server has the message posted to another one, which answers at once. -/
def movedWeb : World :=
  { World.unreachable with
    visit := fun _ _ => ⟨[{ delay := 5, status := 307, url := "https://b.test/" }],
      .answer 5 200 bareReply⟩ }

/-- With half a minute of time, neither keeps the promise.  In the first, the answer comes in time
and is lost.  In the second, the server's answer is a redirect, and that of another server
decides. -/
theorem web_client_breaks_promise :
    let ip : Net.Ip := .v4 ⟨192, 0, 2, 53⟩
    let query : Bytes := [0, 7]
    let first := webForwarder.opening ip query
    (answer? slowWeb first [] 30000 = some (bareReply, 18000) ∧
      (∃ m, Accepts 7 bareReply m) ∧
      (attempt slowWeb 30000 webForwarder 7 query []).1 = .error (.connection .https)) ∧
    (answer? movedWeb first [] 30000 = none ∧
      (attempt movedWeb 30000 webForwarder 7 query []).1 =
        .ok ⟨.https, { header := { id := 7, response := true } }⟩ ∧
      (webForwarder.trip movedWeb query [] 30000).requests =
        [⟨webForwarder.url, some query⟩, ⟨"https://b.test/", some query⟩]) ∧
    ¬ AsPromised slowWeb 30000 webForwarder ip 7 query [] ∧
    ¬ AsPromised movedWeb 30000 webForwarder ip 7 query [] := by
  intro ip query first
  have hip : Net.Ip.parse? webForwarder.host = some ip := by decide +kernel
  refine ⟨⟨by decide +kernel, ⟨_, bareReply_accepted⟩, rfl⟩, ⟨by decide +kernel, ?_, rfl⟩, ?_, ?_⟩
  · rfl
  · exact not_asPromised_of_tooSlow hip rfl
      ⟨12000, bareReply, _, rfl, by decide, by decide, bareReply_accepted⟩
  · intro h
    have hsingle := h.single rfl (by decide)
    revert hsingle
    decide +kernel

end DnsGate.Forward
