import DnsGate.Proofs.Serving
import DnsGate.Serve.Reply

/-!
A blocked name has no effects.  Main statement: a question with a blocked name gets the sinkhole
address and leaves the whole state as it is, so that a request without its blocked questions has the
same answers to the others and ends in the same state (`sinkhole_without_effect`).
-/

namespace DnsGate.Serve

/-- A question whose name is not blocked. -/
def Live.allows (l : Live) (q : Dns.Question) : Bool := !l.blocks (domainOf q.name)

/-- Of answers to questions, one list for each question, those to the questions that are allowed. -/
def Live.answersAllowed (l : Live) (qs : List Dns.Question) (each : List (List Dns.Record)) :
    List (List Dns.Record) :=
  ((qs.zip each).filter fun p => l.allows p.1).map Prod.snd

section Requests

variable (w : Wiring) (s : Surroundings) (now : UInt64)

/-- The answers to questions, one question after the other and each by itself. -/
def resolveEach (qs : List Dns.Question) : Serving (List (List Dns.Record)) :=
  qs.mapM (resolveQuestion w s now)

variable {w s now}

theorem resolveEach_cons {q : Dns.Question} {qs : List Dns.Question} {st between after : State}
    {answers : List Dns.Record} {each : List (List Dns.Record)}
    (hq : (resolveQuestion w s now q).run st = (answers, between))
    (hqs : (resolveEach w s now qs).run between = (each, after)) :
    (resolveEach w s now (q :: qs)).run st = (answers :: each, after) := by
  unfold resolveEach at hqs ⊢
  rw [List.mapM_cons, StateT.run_bind, hq]
  show (qs.mapM (resolveQuestion w s now) >>= fun each => pure (answers :: each) :
    Serving (List (List Dns.Record))).run between = _
  rw [StateT.run_bind, hqs]
  rfl

theorem resolveAll_run {qs : List Dns.Question} {st after : State} {each : List (List Dns.Record)}
    (h : (resolveEach w s now qs).run st = (each, after)) :
    (resolveAll w s now qs).run st = (each.flatten, after) := by
  induction qs generalizing st each with
  | nil => cases h; rfl
  | cons q qs ih =>
    rcases hq : (resolveQuestion w s now q).run st with ⟨answers, between⟩
    rcases hqs : (resolveEach w s now qs).run between with ⟨others, last⟩
    rw [resolveEach_cons hq hqs] at h
    cases h
    rw [resolveAll, StateT.run_bind, hq]
    show (resolveAll w s now qs >>= fun rest => pure (answers ++ rest) :
      Serving (List Dns.Record)).run between = _
    rw [StateT.run_bind, ih hqs]
    rfl

theorem resolveEach_length {qs : List Dns.Question} {st after : State}
    {each : List (List Dns.Record)} (h : (resolveEach w s now qs).run st = (each, after)) :
    each.length = qs.length := by
  induction qs generalizing st each with
  | nil => cases h; rfl
  | cons q qs ih =>
    rcases hq : (resolveQuestion w s now q).run st with ⟨answers, between⟩
    rcases hqs : (resolveEach w s now qs).run between with ⟨others, last⟩
    rw [resolveEach_cons hq hqs] at h
    cases h
    rw [List.length_cons, List.length_cons, ih hqs]

theorem serve_run {m : Dns.Message} {st after : State} {each : List (List Dns.Record)}
    (h : (resolveEach w s now m.questions).run st = (each, after)) :
    ∃ reply : Dns.Message, (serve w s now m).run st = (reply, after) ∧
      reply.answers = each.flatten := by
  unfold serve
  rw [StateT.run_bind, resolveAll_run h]
  exact ⟨_, rfl, rfl⟩

theorem respond_run {r : Request} {st after : State} {each : List (List Dns.Record)}
    (h : (resolveEach w s now r.questions).run st = (each, after)) :
    ∃ reply : Reply, (respond w s now r).run st = (reply, after) ∧
      reply.answers = each.flatten := by
  unfold respond
  rw [StateT.run_bind, resolveAll_run h]
  exact ⟨_, rfl, rfl⟩

/-- Leaving the blocked questions out changes neither the other answers nor the final state.  The
blocklist stays the same throughout, so that what is blocked at the start stays blocked. -/
theorem resolveEach_filter {l : Live} {qs : List Dns.Question} {st after : State}
    {each : List (List Dns.Record)} (hl : st.live = l)
    (h : (resolveEach w s now qs).run st = (each, after)) :
    (resolveEach w s now (qs.filter l.allows)).run st = (l.answersAllowed qs each, after) := by
  induction qs generalizing st each with
  | nil => cases h; rfl
  | cons q qs ih =>
    rcases hq : (resolveQuestion w s now q).run st with ⟨answers, between⟩
    rcases hqs : (resolveEach w s now qs).run between with ⟨others, last⟩
    rw [resolveEach_cons hq hqs] at h
    cases h
    have hlive := resolveQuestion_live w s now q st
    rw [hq, hl] at hlive
    cases hb : l.blocks (domainOf q.name) with
    | true =>
      have hskip : l.allows q = false := by rw [Live.allows, hb]; rfl
      -- the question leaves the state as it is, so the others start from there without it, too
      rw [resolveQuestion_blocked (hl ▸ hb)] at hq
      cases hq
      rw [List.filter_cons_of_neg (by simp [hskip]), ih hl hqs]
      simp [Live.answersAllowed, hskip]
    | false =>
      have hkeep : l.allows q = true := by rw [Live.allows, hb]; rfl
      rw [List.filter_cons_of_pos hkeep, resolveEach_cons hq (ih hlive hqs)]
      simp [Live.answersAllowed, hkeep]

variable (w s now)

/-- A blocked name has no effects.  Whatever the cache, the rules and the record of calls hold, a
question of any type with a blocked name is answered by one address record that leads nowhere, and
the state stays as it is.  So in a request with any questions the blocked ones change neither the
answers to the others nor the final state, in messages and in replies on the wire alike. -/
theorem sinkhole_without_effect (st : State) :
    (∀ q, st.live.blocks (domainOf q.name) = true →
      (resolveQuestion w s now q).run st =
        ([⟨q.name, Dns.RType.a, Dns.internet, 3600, .a ⟨0, 0, 0, 0⟩⟩], st)) ∧
    ∀ qs, ∃ each after, each.length = qs.length ∧
      (resolveEach w s now qs).run st = (each, after) ∧
      (resolveEach w s now (qs.filter st.live.allows)).run st =
        (st.live.answersAllowed qs each, after) ∧
      (∀ m : Dns.Message, m.questions = qs →
        (∃ reply, (serve w s now m).run st = (reply, after) ∧ reply.answers = each.flatten) ∧
        ∃ reply, (serve w s now { m with questions := qs.filter st.live.allows }).run st =
          (reply, after) ∧ reply.answers = (st.live.answersAllowed qs each).flatten) ∧
      ∀ r : Request, r.questions = qs →
        (∃ reply, (respond w s now r).run st = (reply, after) ∧ reply.answers = each.flatten) ∧
        ∃ reply, (respond w s now { r with questions := qs.filter st.live.allows }).run st =
          (reply, after) ∧ reply.answers = (st.live.answersAllowed qs each).flatten := by
  refine ⟨fun q hq => resolveQuestion_blocked hq, fun qs => ?_⟩
  rcases heach : (resolveEach w s now qs).run st with ⟨each, after⟩
  have hfilter := resolveEach_filter rfl heach
  refine ⟨each, after, resolveEach_length heach, rfl, hfilter, ?_, ?_⟩
  · rintro m rfl
    exact ⟨serve_run heach, serve_run hfilter⟩
  · rintro r rfl
    exact ⟨respond_run heach, respond_run hfilter⟩

end Requests

/-- The name `ads.test`. -/
def ads : Dns.Name := ⟨[[0x61, 0x64, 0x73], [0x74, 0x65, 0x73, 0x74]]⟩

/-- A state in which a name is blocked although a rule covers it and the cache has an answer. -/
def adsBlocked : State where
  live := {
    rules := ⟨["ads.test"], by decide⟩
    blocklist := some {
      generation := { rules := ⟨["ads.test"], by decide⟩, count := 1 }
      sources := []
      interval := 0 } }
  cache := Cache.Store.set {} 0 "ads.test" Dns.RType.a [Dns.Record.ofIpv4 ads 60 ⟨192, 0, 2, 1⟩] 60

theorem ads_sinkholed :
    adsBlocked.live.blocks (domainOf ads) = true ∧
      (resolveQuestion ⟨⟨[], 0⟩, none, none⟩ ⟨.unreachable, .idle⟩ 0 ⟨ads, Dns.RType.aaaa, 1⟩).run
        adsBlocked = ([⟨ads, Dns.RType.a, Dns.internet, 3600, .a ⟨0, 0, 0, 0⟩⟩], adsBlocked) := by
  have hblocked : adsBlocked.live.blocks (domainOf ads) = true := by decide
  exact ⟨hblocked, (sinkhole_without_effect _ _ 0 adsBlocked).1 ⟨ads, Dns.RType.aaaa, 1⟩ hblocked⟩

end DnsGate.Serve
