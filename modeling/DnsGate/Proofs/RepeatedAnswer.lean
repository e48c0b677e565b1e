import DnsGate.Proofs.Provenance
import DnsGate.Proofs.TimedMap

/-!
A cached answer stays the answer.  Once the cache keeps records for a question, they are in force
until their last second is over or their name is blocked (`InForce`), whatever else is asked.  Main
statement: what a question gets from then on are those records of the first answer that are of its
type and not too long, and no forwarder is asked for it (`cached_answer_repeats`).  The aliases in
the first answer are not among them (`alias_answered_once`).
-/

namespace DnsGate.Cache.Store

variable {s : Store} {now : UInt64} {name name' : String} {type type' : Dns.RType} {t : Timed}

/-! ## What is kept -/

theorem kept?_eq_some : s.kept? name type = some t ↔
    ∃ bs, s.entries.find? (key name type) = some bs ∧ decodeExpiry? bs = some t.expiry ∧
      decodeRecords bs = t.records := by
  obtain ⟨expiry, records⟩ := t
  simp [kept?, Option.bind_eq_some_iff]

theorem kept?_congr {after : Store}
    (h : after.entries.find? (key name type) = s.entries.find? (key name type)) :
    after.kept? name type = s.kept? name type := by
  rw [kept?, h, kept?]

/-- Fresh records that are kept are found. -/
theorem get_kept (h : s.kept? name type = some t) (hfresh : now ≤ t.expiry)
    (hne : t.records ≠ []) :
    s.get now name type = (some t.records, { s with hits := s.hits + 1 }) := by
  obtain ⟨bs, hfind, hexpiry, hrecords⟩ := kept?_eq_some.mp h
  obtain ⟨r, rs, hcons⟩ := List.exists_cons_of_ne_nil hne
  have hread : freshRecords now bs = r :: rs := by
    unfold freshRecords
    rw [hexpiry]
    dsimp only
    rw [if_pos hfresh, hrecords, hcons]
  rw [get_fresh hfind hread, hcons]

/-- A look-up that finds records finds what is kept. -/
theorem kept_of_get {records : List Dns.Record} {after : Store}
    (h : s.get now name type = (some records, after)) :
    ∃ t, s.kept? name type = some t ∧ now ≤ t.expiry ∧ t.records ≠ [] := by
  obtain ⟨bs, expiry, hfind, hexpiry, hfresh, hrecords, hne, -⟩ := get_some h
  refine ⟨⟨expiry, records⟩, ?_, hfresh, hne⟩
  exact kept?_eq_some.mpr ⟨bs, hfind, hexpiry, hrecords.symm⟩

/-- A look-up that finds nothing is for another key. -/
theorem key_ne_of_get (h : s.kept? name type = some t) (hfresh : now ≤ t.expiry)
    (hne : t.records ≠ []) {after : Store} (hget : s.get now name' type' = (none, after)) :
    key name type ≠ key name' type' := by
  intro hkey
  have hkept : s.kept? name' type' = some t := by
    rw [← h, kept?, ← hkey, kept?]
  rw [get_kept hkept hfresh hne] at hget
  cases hget

/-- No look-up throws away what is fresh. -/
theorem kept?_get (h : s.kept? name type = some t) (hfresh : now ≤ t.expiry)
    (hne : t.records ≠ []) {answer : Option (List Dns.Record)} {after : Store}
    (hget : s.get now name' type' = (answer, after)) : after.kept? name type = some t := by
  cases answer with
  | none =>
    rw [← h]
    apply kept?_congr
    rw [get_none hget, if_neg (key_ne_of_get h hfresh hne hget)]
  | some records =>
    obtain ⟨-, -, -, -, -, -, -, hentries⟩ := get_some hget
    rw [← h]
    apply kept?_congr
    rw [hentries]

/-- Answers to another question leave alone what is kept. -/
theorem kept?_storeAnswers (hkey : key name type ≠ key name' type') (answers : List Dns.Record) :
    (s.storeAnswers now name' type' answers).kept? name type = s.kept? name type := by
  by_cases hnone : ofType type' answers = []
  · rw [storeAnswers_none hnone]
  · obtain ⟨ttl, httl⟩ := exists_ttl hnone
    apply kept?_congr
    rw [storeAnswers_some httl, Data.Table.find?_insert, if_neg hkey]

/-- Of answers to a question the records of its type are kept that are not too long. -/
theorem kept?_storeAnswers_self {answers : List Dns.Record} {ttl : UInt32}
    (httl : ((ofType type answers).map (·.ttl)).min? = some ttl)
    (hread : ∀ r ∈ answers, r.Recovered) :
    (s.storeAnswers now name type answers).kept? name type =
      some ⟨now + ttl.toUInt64, (ofType type answers).filter fun r => decide r.Fits⟩ := by
  refine kept?_eq_some.mpr ⟨_, ?_, decodeExpiry?_encodeEntry _ (ofType type answers),
    decodeRecords_encodeEntry _ fun r hr => hread r (List.mem_of_mem_filter hr)⟩
  rw [storeAnswers_some httl, Data.Table.find?_insert, if_pos rfl]

end DnsGate.Cache.Store

namespace DnsGate.Serve

open Cache (Timed)
open Cache.Store (ofType)

/-! ## Records in force -/

/-- The cache keeps these records for a question, and they answer it now. -/
structure Course.InForce (c : Course) (q : Dns.Question) (t : Timed) : Prop where
  allowed : c.state.live.blocks (domainOf q.name) = false
  fresh : c.now ≤ t.expiry
  kept : c.state.cache.kept? (domainOf q.name) q.type = some t
  nonempty : t.records ≠ []

/-- An event after which records in force are still so. -/
def Event.Spares (q : Dns.Question) (t : Timed) : Event → Prop
  | .ask _ _ _ => True
  | .clock now => now ≤ t.expiry
  | .change live => live.blocks (domainOf q.name) = false

theorem Course.step_ask_live (c : Course) (w : Wiring) (s : Surroundings) {q : Dns.Question}
    (named : q.name.WellFormed) : (c.step w (.ask s q named)).state.live = c.state.live :=
  resolveQuestion_live w s c.now q c.state

namespace Course.InForce

variable {w : Wiring} {c : Course} {q : Dns.Question} {t : Timed}

theorem get (h : c.InForce q t) : c.state.cache.get c.now (domainOf q.name) q.type =
    (some t.records, { c.state.cache with hits := c.state.cache.hits + 1 }) :=
  Cache.Store.get_kept h.kept h.fresh h.nonempty

theorem asks_eq_false (h : c.InForce q t) : c.asks q = false :=
  asks_eq h.allowed h.get

/-- They are the answer, and nothing is sent. -/
theorem answer (h : c.InForce q t) (s : Surroundings) :
    ((resolveQuestion w s c.now q).run c.state).1 = t.records ∧
      ((resolveQuestion w s c.now q).run c.state).2.traffic = c.state.traffic := by
  obtain ⟨calls, failures, hrun⟩ := resolveQuestion_hit (w := w) (s := s) h.allowed h.get
  rw [hrun]
  exact ⟨rfl, rfl⟩

theorem ask (h : c.InForce q t) (s : Surroundings) {q' : Dns.Question}
    (named : q'.name.WellFormed) : (c.step w (.ask s q' named)).InForce q t := by
  have hkept : (c.step w (.ask s q' named)).state.cache.kept? (domainOf q.name) q.type =
      some t := by
    cases hb : c.state.live.blocks (domainOf q'.name) with
    | true =>
      rw [step_blocked named hb]
      exact h.kept
    | false =>
      rcases hget : c.state.cache.get c.now (domainOf q'.name) q'.type with ⟨_ | records, cache⟩
      · have hcache := Cache.Store.kept?_get h.kept h.fresh h.nonempty hget
        rcases hask : w.resolver.resolve s.world q' c.state.traffic with ⟨_ | m, traffic⟩
        · rw [(step_unanswered named hb hget hask).1]
          exact hcache
        · have hkey := Cache.Store.key_ne_of_get h.kept h.fresh h.nonempty hget
          rw [(step_answered named hb hget hask).1, Cache.Store.kept?_storeAnswers hkey]
          exact hcache
      · rw [(step_hit (w := w) (s := s) named hb hget).1]
        exact Cache.Store.kept?_get h.kept h.fresh h.nonempty hget
  refine ⟨?_, h.fresh, hkept, h.nonempty⟩
  rw [step_ask_live]
  exact h.allowed

theorem step (h : c.InForce q t) {e : Event} (he : e.Spares q t) : (c.step w e).InForce q t := by
  cases e with
  | ask s q' named => exact h.ask s named
  | clock now => exact ⟨h.allowed, he, h.kept, h.nonempty⟩
  | change live => exact ⟨he, h.fresh, h.kept, h.nonempty⟩

theorem run (h : c.InForce q t) {es : List Event} (hes : ∀ e ∈ es, e.Spares q t) :
    (es.foldl (Course.step w) c).InForce q t := by
  induction es generalizing c with
  | nil => exact h
  | cons e es ih =>
    obtain ⟨he, hrest⟩ := List.forall_mem_cons.mp hes
    exact ih (h.step he) hrest

end Course.InForce

/-! ## Answers that repeat -/

section Repeats

variable {w : Wiring} {c : Course} {s : Surroundings} {q : Dns.Question} {h : Heard}

/-- A message is heard for a question that is allowed and that the cache does not answer. -/
theorem Course.hears_eq_some (hheard : c.hears w s q = some h) :
    ∃ cache traffic, c.state.live.blocks (domainOf q.name) = false ∧
      c.state.cache.get c.now (domainOf q.name) q.type = (none, cache) ∧
      w.resolver.resolve s.world q c.state.traffic = (some h.message, traffic) := by
  unfold Course.hears at hheard
  split at hheard
  · rename_i hasks
    obtain ⟨hallowed, hmiss⟩ := Bool.and_eq_true_iff.mp hasks
    obtain ⟨m, hm, rfl⟩ := Option.map_eq_some_iff.mp hheard
    exact ⟨_, _, by simpa using hallowed, Prod.ext (Option.isNone_iff_eq_none.mp hmiss) rfl,
      Prod.ext hm rfl⟩
  · cases hheard

/-- If the message that answers a question is kept at all, then its records of the type that are not
too long are in force. -/
theorem Course.inForce_of_hears (named : q.name.WellFormed) (hheard : c.hears w s q = some h)
    (hread : ∀ r ∈ h.message.answers, r.Recovered)
    (hcached : (c.step w (.ask s q named)).asks q = false) :
    ∃ t, (c.step w (.ask s q named)).InForce q t ∧
      t.records = (ofType q.type h.message.answers).filter fun r => decide r.Fits := by
  obtain ⟨cache, traffic, hallowed, hget, hask⟩ := hears_eq_some hheard
  have hcache := (step_answered named hallowed hget hask).1
  have hlive : (c.step w (.ask s q named)).state.live.blocks (domainOf q.name) = false := by
    rw [step_ask_live]
    exact hallowed
  rcases hagain : (c.step w (.ask s q named)).state.cache.get (c.step w (.ask s q named)).now
    (domainOf q.name) q.type with ⟨_ | records, after⟩
  · rw [asks_eq hlive hagain] at hcached
    cases hcached
  · obtain ⟨t, hkept, hfresh, hne⟩ := Cache.Store.kept_of_get hagain
    refine ⟨t, ⟨hlive, hfresh, hkept, hne⟩, ?_⟩
    rw [hcache] at hkept
    by_cases hnone : ofType q.type h.message.answers = []
    · -- the look-up before has left no entry, and none is made
      rw [Cache.Store.storeAnswers_none hnone, Cache.Store.kept?, Cache.Store.get_none hget,
        if_pos rfl] at hkept
      cases hkept
    · obtain ⟨ttl, httl⟩ := Cache.Store.exists_ttl hnone
      rw [Cache.Store.kept?_storeAnswers_self httl hread] at hkept
      rw [← Option.some.inj hkept]

/-- A cached answer stays the answer.  Take any question that is neither blocked nor cached and that
a forwarder answers with a message after which the cache answers it.  Then the cache keeps records
until a last second such that whatever is asked, and however rules and blocklist change, as long as
the name is not blocked and the clock is never set past that second: the question is not passed on,
nothing is sent for it, and what it gets is, record for record and in order, the first answer
without the records of other types and those that are too long to be kept. -/
theorem cached_answer_repeats (named : q.name.WellFormed) (hheard : c.hears w s q = some h)
    (hread : ∀ r ∈ h.message.answers, r.Recovered)
    (hcached : (c.step w (.ask s q named)).asks q = false) :
    let first := (resolveQuestion w s c.now q).run c.state
    let c₁ := c.step w (.ask s q named)
    first.1 = h.message.answers ∧
      ∃ t, c₁.state.cache.kept? (domainOf q.name) q.type = some t ∧
        ∀ es : List Event, (∀ e ∈ es, e.Spares q t) →
          let c₂ := es.foldl (Course.step w) c₁
          c₂.asks q = false ∧
            ∀ s', let again := (resolveQuestion w s' c₂.now q).run c₂.state
              again.1 = first.1.filter (fun r => decide (r.type = q.type ∧ r.Fits)) ∧
                again.2.traffic = c₂.state.traffic := by
  intro first c₁
  obtain ⟨cache, traffic, hallowed, hget, hask⟩ := Course.hears_eq_some hheard
  obtain ⟨calls, failures, hrun⟩ := resolveQuestion_answered hallowed hget hask
  have hfirst : first.1 = h.message.answers := by rw [show first = _ from hrun]
  obtain ⟨t, hforce, hrecords⟩ := Course.inForce_of_hears named hheard hread hcached
  refine ⟨hfirst, t, hforce.kept, fun es hes => ?_⟩
  have hlater := hforce.run (w := w) hes
  refine ⟨hlater.asks_eq_false, fun s' => ?_⟩
  obtain ⟨hanswer, hunsent⟩ := hlater.answer (w := w) s'
  refine ⟨?_, hunsent⟩
  rw [hfirst]
  calc _ = t.records := hanswer
    _ = (ofType q.type h.message.answers).filter fun r => decide r.Fits := hrecords
    _ = h.message.answers.filter fun r => decide (r.type = q.type ∧ r.Fits) := by
      rw [ofType, List.filter_filter]
      apply List.filter_congr
      intro r _
      rw [Bool.decide_and, Bool.and_comm]

end Repeats

/-- The address of `a.test` is asked for, once more when its minute is over, and once more. -/
theorem address_answered_again :
    let c₁ := beforeAsking.step oneForwarder (.ask answering addressQuestion (by decide))
    let c₂ := [.clock 1060, .ask answering addressQuestion (by decide)].foldl
      (Course.step oneForwarder) c₁
    let first := (resolveQuestion oneForwarder answering 1000 addressQuestion).run
      beforeAsking.state
    let again := (resolveQuestion oneForwarder answering c₂.now addressQuestion).run c₂.state
    first.1 ≠ [] ∧
      again.1 = first.1.filter (fun r => decide (r.type = addressQuestion.type ∧ r.Fits)) ∧
      again.2.traffic = c₂.state.traffic := by
  obtain ⟨h, hheard, hread⟩ : ∃ h ∈ beforeAsking.hears oneForwarder answering addressQuestion,
      ∀ r ∈ h.message.answers, r.Recovered := by
    decide +kernel
  have hcached : (beforeAsking.step oneForwarder (.ask answering addressQuestion (by decide))).asks
      addressQuestion = false := by
    decide +kernel
  obtain ⟨-, t, hkept, hrepeats⟩ :=
    cached_answer_repeats (by decide) hheard hread hcached
  have hexpiry : ((beforeAsking.step oneForwarder (.ask answering addressQuestion
      (by decide))).state.cache.kept? (domainOf addressQuestion.name) addressQuestion.type).map
      (·.expiry) = some 1060 := by
    decide +kernel
  rw [hkept, Option.map_some, Option.some.injEq] at hexpiry
  have hspares : ∀ e ∈ [.clock 1060, .ask answering addressQuestion (by decide)],
      Event.Spares addressQuestion t e := by
    intro e he
    rcases List.mem_pair.mp he with rfl | rfl
    · show 1060 ≤ t.expiry
      rw [hexpiry]
      exact UInt64.le_refl _
    · trivial
  exact ⟨by decide +kernel, (hrepeats _ hspares).2 answering⟩

/-! ## An alias -/

/-- The bytes of a message in which `a.test` is an alias of `b.test`, and the address of that. -/
def aliasReply : Bytes :=
  [0, 0, 0x81, 0x80, 0, 1, 0, 2, 0, 0, 0, 0] ++
    [1, 0x61, 4, 0x74, 0x65, 0x73, 0x74, 0, 0, 1, 0, 1] ++
    [0xC0, 12, 0, 5, 0, 1, 0, 0, 0, 60, 0, 4, 1, 0x62, 0xC0, 14] ++
    [0xC0, 36, 0, 1, 0, 1, 0, 0, 0, 60, 0, 4, 192, 0, 2, 1]

def aliasing : Surroundings where
  world := { Forward.World.unreachable with react := fun _ _ => .bytes 10 aliasReply }
  tool := .idle

/-- The alias is in the first answer alone, though the message is heard, its records are recovered,
it is kept, and nothing happens before the question is asked again. -/
theorem alias_answered_once :
    let c := beforeAsking
    let c₁ := c.step oneForwarder (.ask aliasing addressQuestion (by decide))
    let first := (resolveQuestion oneForwarder aliasing c.now addressQuestion).run c.state
    let again := (resolveQuestion oneForwarder aliasing c₁.now addressQuestion).run c₁.state
    (∃ h ∈ c.hears oneForwarder aliasing addressQuestion,
        ∀ r ∈ h.message.answers, r.Recovered) ∧
      c₁.asks addressQuestion = false ∧ again.1 ≠ first.1 ∧
      first.1.map (·.type) = [Dns.RType.cname, Dns.RType.a] ∧
      again.1.map (·.type) = [Dns.RType.a] := by
  decide +kernel

end DnsGate.Serve
