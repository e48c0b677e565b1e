import DnsGate.Serve.Question

/-!
What answering one question does, case by case: the name is blocked, the cache has a fresh answer,
or the forwarders are asked.  The proofs about runs of questions rest on these cases and do not open
the definitions again.
-/

namespace DnsGate.Serve

section Cases

variable {w : Wiring} {s : Surroundings} {now : UInt64} {q : Dns.Question} {st : State}

/-! ## Blocked names -/

theorem resolveQuestion_blocked (h : st.live.blocks (domainOf q.name) = true) :
    (resolveQuestion w s now q).run st = ([sinkhole q.name], st) := by
  unfold resolveQuestion
  rw [StateT.run_bind]
  show (if st.live.blocks (domainOf q.name) = true then pure [sinkhole q.name] else _ :
    Serving (List Dns.Record)).run st = _
  rw [if_pos h]
  rfl

/-! ## Other names -/

theorem resolveQuestion_allowed {after : State} {answers : List Dns.Record}
    (h : st.live.blocks (domainOf q.name) = false)
    (hl : (lookUp w s now q).run st = (answers, after)) :
    (resolveQuestion w s now q).run st =
      (answers, if after.live.rules.covers (domainOf q.name) then ((feed w s answers).run after).2
        else after) := by
  unfold resolveQuestion
  rw [StateT.run_bind]
  show (if st.live.blocks (domainOf q.name) = true then pure [sinkhole q.name] else _ :
    Serving (List Dns.Record)).run st = _
  rw [if_neg (by simp [h]), StateT.run_bind, hl]
  show (if after.live.rules.covers (domainOf q.name) = true then _ else _ :
    Serving (List Dns.Record)).run after = _
  split
  · rfl
  · rfl

theorem lookUp_hit {records : List Dns.Record} {cache : Cache.Store}
    (h : st.cache.get now (domainOf q.name) q.type = (some records, cache)) :
    (lookUp w s now q).run st = (records, { st with cache }) := by
  unfold lookUp StateT.run
  dsimp only
  rw [h]

theorem lookUp_miss {cache : Cache.Store}
    (h : st.cache.get now (domainOf q.name) q.type = (none, cache)) :
    (lookUp w s now q).run st = (askForwarders w s now q).run { st with cache } := by
  unfold lookUp StateT.run
  dsimp only
  rw [h]

theorem askForwarders_none {traffic : Forward.Traffic}
    (h : w.resolver.resolve s.world q st.traffic = (none, traffic)) :
    (askForwarders w s now q).run st = ([], { st with traffic }) := by
  unfold askForwarders StateT.run
  dsimp only
  rw [h]

theorem askForwarders_some {m : Dns.Message} {traffic : Forward.Traffic}
    (h : w.resolver.resolve s.world q st.traffic = (some m, traffic)) :
    (askForwarders w s now q).run st =
      (m.answers, { st with
        traffic
        cache := st.cache.storeAnswers now (domainOf q.name) q.type m.answers }) := by
  unfold askForwarders StateT.run
  dsimp only
  rw [h]

/-! ## What stays the same -/

variable (w s now q st)

/-- Feeding the IP sets changes nothing but the record of calls. -/
theorem feed_run (rs : List Dns.Record) :
    ∃ calls failures, (feed w s rs).run st = ((), { st with calls, failures }) := by
  induction rs generalizing st with
  | nil => exact ⟨st.calls, st.failures, rfl⟩
  | cons r rs ih =>
    unfold feed
    cases w.callFor? r with
    | none => exact ih st
    | some call =>
      obtain ⟨calls, failures, h⟩ := ih ((callTool s call).run st).2
      exact ⟨calls, failures, h⟩

/-- A look-up leaves alone what it does not read: the live rules and the record of calls. -/
theorem lookUp_run : ∃ answers cache traffic,
    (lookUp w s now q).run st = (answers, { st with cache, traffic }) := by
  rcases hget : st.cache.get now (domainOf q.name) q.type with ⟨_ | records, cache⟩
  · rw [lookUp_miss hget]
    rcases hask : w.resolver.resolve s.world q st.traffic with ⟨_ | m, traffic⟩
    · exact ⟨[], cache, traffic, askForwarders_none hask⟩
    · exact ⟨m.answers, _, traffic, askForwarders_some hask⟩
  · exact ⟨records, cache, st.traffic, lookUp_hit hget⟩

variable {st} in
/-- Answers, cache and traffic after a question whose name is not blocked are those of the
look-up. -/
theorem resolveQuestion_run (h : st.live.blocks (domainOf q.name) = false) :
    ∃ answers cache traffic calls failures,
      (lookUp w s now q).run st = (answers, { st with cache, traffic }) ∧
      (resolveQuestion w s now q).run st =
        (answers, { st with cache, traffic, calls, failures }) := by
  obtain ⟨answers, cache, traffic, hl⟩ := lookUp_run w s now q st
  refine ⟨answers, cache, traffic, ?_⟩
  rw [resolveQuestion_allowed h hl]
  split
  · obtain ⟨calls, failures, hfeed⟩ := feed_run w s { st with cache, traffic } answers
    exact ⟨calls, failures, hl, by rw [hfeed]⟩
  · exact ⟨st.calls, st.failures, hl, rfl⟩

variable {w s now q st}

/-! ## The three ways to an answer -/

/-- From the cache. -/
theorem resolveQuestion_hit {records : List Dns.Record} {cache : Cache.Store}
    (h : st.live.blocks (domainOf q.name) = false)
    (hget : st.cache.get now (domainOf q.name) q.type = (some records, cache)) :
    ∃ calls failures, (resolveQuestion w s now q).run st =
      (records, { st with cache, calls, failures }) := by
  obtain ⟨answers, cache', traffic, calls, failures, hl, hrun⟩ := resolveQuestion_run w s now q h
  rw [lookUp_hit hget] at hl
  cases hl
  exact ⟨calls, failures, hrun⟩

/-- No answer, because no forwarder has one. -/
theorem resolveQuestion_unanswered {cache : Cache.Store} {traffic : Forward.Traffic}
    (h : st.live.blocks (domainOf q.name) = false)
    (hget : st.cache.get now (domainOf q.name) q.type = (none, cache))
    (hask : w.resolver.resolve s.world q st.traffic = (none, traffic)) :
    ∃ calls failures, (resolveQuestion w s now q).run st =
      ([], { st with cache, traffic, calls, failures }) := by
  obtain ⟨answers, cache', traffic', calls, failures, hl, hrun⟩ := resolveQuestion_run w s now q h
  have hasked : w.resolver.resolve s.world q ({ st with cache } : State).traffic =
      (none, traffic) := hask
  rw [lookUp_miss hget, askForwarders_none hasked] at hl
  cases hl
  exact ⟨calls, failures, hrun⟩

/-- From a forwarder; the answers are kept. -/
theorem resolveQuestion_answered {cache : Cache.Store} {m : Dns.Message}
    {traffic : Forward.Traffic} (h : st.live.blocks (domainOf q.name) = false)
    (hget : st.cache.get now (domainOf q.name) q.type = (none, cache))
    (hask : w.resolver.resolve s.world q st.traffic = (some m, traffic)) :
    ∃ calls failures, (resolveQuestion w s now q).run st =
      (m.answers, { st with
        cache := cache.storeAnswers now (domainOf q.name) q.type m.answers
        traffic, calls, failures }) := by
  obtain ⟨answers, cache', traffic', calls, failures, hl, hrun⟩ := resolveQuestion_run w s now q h
  have hasked : w.resolver.resolve s.world q ({ st with cache } : State).traffic =
      (some m, traffic) := hask
  rw [lookUp_miss hget, askForwarders_some hasked] at hl
  cases hl
  exact ⟨calls, failures, hrun⟩

variable (w s now q st)

/-- Answering questions changes neither the rules nor the blocklist. -/
theorem resolveQuestion_live : ((resolveQuestion w s now q).run st).2.live = st.live := by
  cases h : st.live.blocks (domainOf q.name) with
  | true => rw [resolveQuestion_blocked h]
  | false =>
    obtain ⟨answers, cache, traffic, calls, failures, -, hrun⟩ :=
      resolveQuestion_run w s now q h
    rw [hrun]

end Cases

end DnsGate.Serve
