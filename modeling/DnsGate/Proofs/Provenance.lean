import DnsGate.Proofs.CacheKey
import DnsGate.Proofs.CacheStore
import DnsGate.Proofs.Course

/-!
Where cached answers come from.  Every entry of the cache is the one that the latest message heard
for its question has left: names share an entry only if they differ in case alone, an entry is
written over by a later message, and what a look-up throws away stays away (`Accounted`).  Main
statement: an answer that no forwarder was asked for consists of the records of one message heard
before, in their order and not past the time to live of any of them (`cached_answer_provenance`).
-/

namespace DnsGate.Serve

open Cache.Store (ofType)
open Dns (Name)

/-! ## Messages that serve a question -/

/-- A message was heard for a question of the same type and, but for case, of the same name, and has
records of the type. -/
def Heard.Serves (h : Heard) (q : Dns.Question) : Prop :=
  h.question.type = q.type ∧ Name.SameUpToCase h.question.name q.name ∧
    ofType q.type h.message.answers ≠ []

instance (h : Heard) (q : Dns.Question) : Decidable (h.Serves q) :=
  inferInstanceAs (Decidable (_ ∧ _))

/-- The latest of the messages heard that serve a question. -/
def Course.latest (c : Course) (q : Dns.Question) : Option Heard :=
  c.heard.find? fun h => decide (h.Serves q)

theorem latest_of_serves {c : Course} {h : Heard} {hs : List Heard} {q : Dns.Question}
    (hheard : c.heard = h :: hs) (hserves : h.Serves q) : c.latest q = some h := by
  rw [Course.latest, hheard, List.find?_cons_of_pos]
  exact decide_eq_true hserves

theorem latest_of_not_serves {c c' : Course} {h : Heard} {q : Dns.Question}
    (hheard : c'.heard = h :: c.heard) (hserves : ¬ h.Serves q) : c'.latest q = c.latest q := by
  rw [Course.latest, hheard, List.find?_cons_of_neg (by simpa using hserves)]
  rfl

/-- The entry that a message has left for a type. -/
def Heard.Left (h : Heard) (type : Dns.RType) (bs : Bytes) : Prop :=
  ∃ ttl, ((ofType type h.message.answers).map (·.ttl)).min? = some ttl ∧
    bs = Cache.encodeEntry (h.time + ttl.toUInt64) (ofType type h.message.answers)

/-! ## The invariant -/

/-- Every entry of the cache was left by the latest message that serves its question. -/
structure Accounted (c : Course) : Prop where
  named : ∀ h ∈ c.heard, h.question.name.WellFormed
  noError : ∀ h ∈ c.heard, h.message.header.rcode = Dns.Rcode.noError
  left : ∀ q : Dns.Question, q.name.WellFormed → ∀ bs,
    c.state.cache.entries.find? (Cache.key (domainOf q.name) q.type) = some bs →
      ∃ h, c.latest q = some h ∧ h.Left q.type bs

section Steps

variable {w : Wiring} {s : Surroundings} {c c' : Course} {q : Dns.Question}

theorem accounted_start (now : UInt64) (st : State) :
    Accounted { now, state := { st with cache := {} } } := by
  constructor
  · exact List.forall_mem_nil _
  · exact List.forall_mem_nil _
  · intro q _ bs hbs
    cases hbs

/-- Entries may go without anything being heard. -/
theorem Accounted.of_fewer (h : Accounted c) (hheard : c'.heard = c.heard)
    (hfewer : ∀ k bs, c'.state.cache.entries.find? k = some bs →
      c.state.cache.entries.find? k = some bs) : Accounted c' := by
  constructor
  · rw [hheard]
    exact h.named
  · rw [hheard]
    exact h.noError
  · intro q hq bs hbs
    rw [Course.latest, hheard]
    exact h.left q hq bs (hfewer _ bs hbs)

/-- A message that is heard is the latest one for the questions that it serves, and changes nothing
for the others. -/
theorem Accounted.of_heard {cache : Cache.Store} {m : Dns.Message} (h : Accounted c)
    (hq : q.name.WellFormed) (hm : m.header.rcode = Dns.Rcode.noError)
    (hheard : c'.heard = ⟨c.now, q, m⟩ :: c.heard)
    (hcache : c'.state.cache = cache.storeAnswers c.now (domainOf q.name) q.type m.answers)
    (hfewer : ∀ k bs, cache.entries.find? k = some bs →
      c.state.cache.entries.find? k = some bs) : Accounted c' := by
  have hother : ∀ q' bs, q'.name.WellFormed → ¬ (⟨c.now, q, m⟩ : Heard).Serves q' →
      cache.entries.find? (Cache.key (domainOf q'.name) q'.type) = some bs →
      ∃ h, c'.latest q' = some h ∧ h.Left q'.type bs := by
    intro q' bs hq' hserves hbs
    rw [latest_of_not_serves hheard hserves]
    exact h.left q' hq' bs (hfewer _ bs hbs)
  refine ⟨?_, ?_, fun q' hq' bs hbs => ?_⟩
  · rw [hheard]
    exact List.forall_mem_cons.mpr ⟨hq, h.named⟩
  · rw [hheard]
    exact List.forall_mem_cons.mpr ⟨hm, h.noError⟩
  rw [hcache] at hbs
  by_cases hnone : ofType q.type m.answers = []
  · -- nothing is kept, and the message serves no question
    rw [Cache.Store.storeAnswers_none hnone] at hbs
    refine hother q' bs hq' ?_ hbs
    rintro ⟨htype, -, hsome⟩
    exact hsome (htype ▸ hnone)
  · obtain ⟨ttl, httl⟩ := Cache.Store.exists_ttl hnone
    rw [Cache.Store.storeAnswers_some httl, Data.Table.find?_insert] at hbs
    by_cases hkey : Cache.key (domainOf q'.name) q'.type = Cache.key (domainOf q.name) q.type
    · -- the question shares the new entry, so the message serves it
      rw [if_pos hkey] at hbs
      obtain ⟨hname, htype⟩ := (key_domainOf_eq_iff hq' hq).mp hkey
      rw [htype]
      refine ⟨⟨c.now, q, m⟩, latest_of_serves hheard ?_, ttl, httl, (Option.some.inj hbs).symm⟩
      exact ⟨htype.symm, hname.symm, htype ▸ hnone⟩
    · rw [if_neg hkey] at hbs
      refine hother q' bs hq' ?_ hbs
      rintro ⟨htype, hname, -⟩
      exact hkey ((key_domainOf_eq_iff hq' hq).mpr ⟨hname.symm, htype.symm⟩)

theorem Accounted.ask (h : Accounted c) (named : q.name.WellFormed) :
    Accounted (c.step w (.ask s q named)) := by
  cases hb : c.state.live.blocks (domainOf q.name) with
  | true =>
    rw [Course.step_blocked named hb]
    exact h
  | false =>
    rcases hget : c.state.cache.get c.now (domainOf q.name) q.type with ⟨_ | records, cache⟩
    · have hfewer : ∀ k bs, cache.entries.find? k = some bs →
          c.state.cache.entries.find? k = some bs := fun _ _ => Cache.Store.find?_of_get hget
      rcases hask : w.resolver.resolve s.world q c.state.traffic with ⟨_ | m, traffic⟩
      · obtain ⟨hcache, hheard⟩ := Course.step_unanswered named hb hget hask
        exact h.of_fewer hheard (by rw [hcache]; exact hfewer)
      · obtain ⟨hcache, hheard⟩ := Course.step_answered named hb hget hask
        obtain ⟨-, hcode, -⟩ := Forward.resolve_some hask
        exact h.of_heard named hcode hheard hcache hfewer
    · obtain ⟨hcache, hheard⟩ := Course.step_hit (w := w) (s := s) named hb hget
      refine h.of_fewer hheard ?_
      rw [hcache]
      exact fun _ _ => Cache.Store.find?_of_get hget

theorem Accounted.step (h : Accounted c) (e : Event) : Accounted (c.step w e) := by
  cases e with
  | ask s q named => exact h.ask named
  | clock now => exact h.of_fewer rfl fun _ _ hbs => hbs
  | change live => exact h.of_fewer rfl fun _ _ hbs => hbs

theorem Course.Reachable.accounted (h : c.Reachable w) : Accounted c := by
  induction h with
  | start now st => exact accounted_start now st
  | step e _ ih => exact ih.step e

end Steps

/-! ## Answers without forwarders -/

/-- Answers that come from the latest message heard for a question: its records of the type, in
order, but for those that are too long to be kept, and no time to live among them has passed. -/
structure Provenance (c : Course) (q : Dns.Question) (answers : List Dns.Record) (h : Heard) :
    Prop where
  nonempty : answers ≠ []
  latest : c.latest q = some h
  noError : h.message.header.rcode = Dns.Rcode.noError
  records : answers = (ofType q.type h.message.answers).filter fun r => decide r.Fits
  fresh : ∀ r ∈ h.message.answers, r.type = q.type → c.now.toNat ≤ h.time.toNat + r.ttl.toNat

section Answers

variable {w : Wiring} {c : Course} {q : Dns.Question}

/-- The sum of a time and a time to live may run over, but is never more than they come to. -/
theorem toNat_le_of_le_add {now time : UInt64} {ttl : UInt32} (h : now ≤ time + ttl.toUInt64) :
    now.toNat ≤ time.toNat + ttl.toNat := by
  have hle := UInt64.le_iff_toNat_le.mp h
  rw [UInt64.toNat_add, UInt32.toNat_toUInt64] at hle
  exact Nat.le_trans hle (Nat.mod_le _ _)

theorem Accounted.provenance (h : Accounted c) (hq : q.name.WellFormed)
    (hread : ∀ h ∈ c.heard, ∀ r ∈ h.message.answers, r.Recovered)
    {records : List Dns.Record} {cache : Cache.Store}
    (hget : c.state.cache.get c.now (domainOf q.name) q.type = (some records, cache)) :
    ∃ h, Provenance c q records h := by
  obtain ⟨bs, expiry, hfind, hexpiry, hle, hdecode, hne, -⟩ := Cache.Store.get_some hget
  obtain ⟨heard, hlatest, ttl, hmin, rfl⟩ := h.left q hq bs hfind
  have hmem : heard ∈ c.heard := List.mem_of_find?_eq_some hlatest
  have hrecovered : ∀ r ∈ ofType q.type heard.message.answers, r.Recovered := fun r hr =>
    hread heard hmem r (List.mem_of_mem_filter hr)
  rw [Cache.decodeRecords_encodeEntry _ hrecovered] at hdecode
  rw [Cache.decodeExpiry?_encodeEntry] at hexpiry
  cases hexpiry
  refine ⟨heard, hne, hlatest, h.noError heard hmem, hdecode, fun r hr htype => ?_⟩
  have hr : r ∈ ofType q.type heard.message.answers :=
    List.mem_filter.mpr ⟨hr, decide_eq_true htype⟩
  have httl := UInt32.le_iff_toNat_le.mp (Cache.Store.ttl_le hmin r hr)
  exact Nat.le_trans (toNat_le_of_le_add hle) (Nat.add_le_add_left httl _)

/-- Cached answers come from the latest message heard for their question.  In every course of a
server from an empty cache on, whatever is asked, forwarders answer and the clock shows, an allowed
question that is not passed on to the forwarders, or that gets answers although nothing is sent,
gets some records.  They are those of its type that one message had, with no error, for a question
of the same type and of the same name up to case, none later; and no time to live of them has
passed. -/
theorem cached_answer_provenance (hc : c.Reachable w) (s : Surroundings) (hq : q.name.WellFormed)
    (hallowed : c.state.live.blocks (domainOf q.name) = false)
    (hread : ∀ h ∈ c.heard, ∀ r ∈ h.message.answers, r.Recovered) :
    let result := (resolveQuestion w s c.now q).run c.state
    c.asks q = false ∨ (result.1 ≠ [] ∧ result.2.traffic = c.state.traffic) →
      ∃ h, Provenance c q result.1 h := by
  intro result hresult
  have hasks : c.asks q = false := by
    rcases hresult with hasks | ⟨hsome, hunsent⟩
    · exact hasks
    · exact Course.asks_eq_false_of_unsent s hallowed hsome hunsent
  rcases hget : c.state.cache.get c.now (domainOf q.name) q.type with ⟨_ | records, cache⟩
  · rw [Course.asks_eq hallowed hget] at hasks
    cases hasks
  · obtain ⟨calls, failures, hrun⟩ := resolveQuestion_hit (w := w) (s := s) hallowed hget
    rw [show result = _ from hrun]
    exact hc.accounted.provenance hq hread hget

end Answers

/-! ## A course -/

/-- The question for the address of `a.test`. -/
def addressQuestion : Dns.Question :=
  ⟨⟨[[0x61], [0x74, 0x65, 0x73, 0x74]]⟩, Dns.RType.a, Dns.internet⟩

/-- The bytes of a message that answers it for a minute. -/
def addressReply : Bytes :=
  [0, 0, 0x81, 0x80, 0, 1, 0, 1, 0, 0, 0, 0] ++
    [1, 0x61, 4, 0x74, 0x65, 0x73, 0x74, 0, 0, 1, 0, 1] ++
    [0xC0, 12, 0, 1, 0, 1, 0, 0, 0, 60, 0, 4, 192, 0, 2, 1]

/-- One forwarder, which answers with that after ten milliseconds. -/
def oneForwarder : Wiring := ⟨⟨["192.0.2.53"], 5000⟩, none, none⟩
def answering : Surroundings where
  world := { Forward.World.unreachable with react := fun _ _ => .bytes 10 addressReply }
  tool := .idle

def beforeAsking : Course := { now := 1000, state := { live := ⟨.empty, none⟩ } }

/-- The question is asked once; then the clock goes on for a minute. -/
def askedOnce : Course :=
  (beforeAsking.step oneForwarder (.ask answering addressQuestion (by decide))).step oneForwarder
    (.clock 1060)

theorem answered_from_cache :
    let result := (resolveQuestion oneForwarder answering askedOnce.now addressQuestion).run
      askedOnce.state
    ∃ h, Provenance askedOnce addressQuestion result.1 h := by
  have hreached : askedOnce.Reachable oneForwarder :=
    .step _ (.step _ (.start 1000 { live := ⟨.empty, none⟩ }))
  have hread : ∀ h ∈ askedOnce.heard, ∀ r ∈ h.message.answers, r.Recovered := by
    have hall : (askedOnce.heard.flatMap (·.message.answers)).all (fun r =>
        r.encode.all (fun bs => Dns.Record.decode bs = some r)) = true := by decide +kernel
    intro h hh r hr bs hbs
    have hr' := List.all_eq_true.mp hall r (List.mem_flatMap.mpr ⟨h, hh, hr⟩)
    rw [hbs] at hr'
    exact of_decide_eq_true hr'
  have hallowed : askedOnce.state.live.blocks (domainOf addressQuestion.name) = false := by
    decide +kernel
  have hasks : askedOnce.asks addressQuestion = false := by decide +kernel
  exact cached_answer_provenance hreached answering (by decide) hallowed hread (Or.inl hasks)

end DnsGate.Serve
