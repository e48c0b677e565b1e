import DnsGate.Proofs.Provenance
import DnsGate.Proofs.Session

/-!
Rules and IP sets have no influence on replies.  Two servers with the same forwarders are alike as
long as they block the same, hold the same cache and have sent the same (`Scene.Alike`); the rules,
the calls of the tool and their failures may differ in any way.  Every turn of a session keeps them
alike, and an edit of rules is no turn that the other server must take as well.  Main statement:
sessions that differ in rules, edits of rules, IP sets and the tool alone show the same replies,
caches and traffic (`replies_isolated`).
-/

namespace DnsGate.Serve

/-! ## Questions -/

/-- What is blocked, the cache and what was sent are the same. -/
structure State.Alike (a b : State) : Prop where
  generation : a.live.blocklist.map (·.generation) = b.live.blocklist.map (·.generation)
  cache : a.cache = b.cache
  traffic : a.traffic = b.traffic

theorem Live.blocks_eq_of_generation {l m : Live}
    (h : l.blocklist.map (·.generation) = m.blocklist.map (·.generation)) (name : String) :
    l.blocks name = m.blocks name := by
  have hblocks (l : Live) :
      l.blocks name = (l.blocklist.map (·.generation)).any (·.blocks name) := by
    cases hl : l.blocklist <;> simp [Live.blocks, Blocklist.Manager.blocks, hl]
  rw [hblocks l, h, hblocks m]

/-- What a question shows: the answers to it, and what the cache held and what had been sent after
it. -/
structure Shown where
  question : Dns.Question
  answers : List Dns.Record
  cache : Cache.Store
  traffic : Forward.Traffic

def Asked.shown (a : Asked) : Shown := ⟨a.question, a.answers, a.cache, a.traffic⟩

section Questions

variable {w w' : Wiring} {s s' : Surroundings} {now : UInt64} {st st' after after' : State}
  {q : Dns.Question} {answers answers' : List Dns.Record}
  (hw : w.resolver = w'.resolver) (hs : s.world = s'.world)

theorem lookUp_unanswered {cache : Cache.Store} {traffic : Forward.Traffic}
    (hget : st.cache.get now (domainOf q.name) q.type = (none, cache))
    (hask : w.resolver.resolve s.world q st.traffic = (none, traffic)) :
    (lookUp w s now q).run st = ([], { st with cache, traffic }) :=
  (lookUp_miss hget).trans (askForwarders_none hask)

theorem lookUp_answered {cache : Cache.Store} {traffic : Forward.Traffic} {m : Dns.Message}
    (hget : st.cache.get now (domainOf q.name) q.type = (none, cache))
    (hask : w.resolver.resolve s.world q st.traffic = (some m, traffic)) :
    (lookUp w s now q).run st = (m.answers, { st with
      traffic
      cache := cache.storeAnswers now (domainOf q.name) q.type m.answers }) :=
  (lookUp_miss hget).trans (askForwarders_some hask)

include hw hs

theorem State.Alike.lookUp (h : st.Alike st') (hl : (lookUp w s now q).run st = (answers, after))
    (hl' : (lookUp w' s' now q).run st' = (answers', after')) :
    answers = answers' ∧ after.Alike after' := by
  rcases hget : st.cache.get now (domainOf q.name) q.type with ⟨_ | records, cache⟩
  · have hget' : st'.cache.get now (domainOf q.name) q.type = (none, cache) := h.cache ▸ hget
    have hsame : w'.resolver.resolve s'.world q st'.traffic =
        w.resolver.resolve s.world q st.traffic := by
      rw [hw, hs, h.traffic]
    rcases hask : w.resolver.resolve s.world q st.traffic with ⟨_ | m, traffic⟩
    · rw [lookUp_unanswered hget hask] at hl
      rw [lookUp_unanswered hget' (hsame.trans hask)] at hl'
      cases hl
      cases hl'
      exact ⟨rfl, h.generation, rfl, rfl⟩
    · rw [lookUp_answered hget hask] at hl
      rw [lookUp_answered hget' (hsame.trans hask)] at hl'
      cases hl
      cases hl'
      exact ⟨rfl, h.generation, rfl, rfl⟩
  · rw [lookUp_hit hget] at hl
    rw [lookUp_hit (h.cache ▸ hget)] at hl'
    cases hl
    cases hl'
    exact ⟨rfl, h.generation, rfl, h.traffic⟩

/-- A question gets the same answers and leaves the servers alike: what is decided after the
look-up, the calls and their failures, plays no part. -/
theorem State.Alike.resolveQuestion (h : st.Alike st')
    (hq : (resolveQuestion w s now q).run st = (answers, after))
    (hq' : (resolveQuestion w' s' now q).run st' = (answers', after')) :
    answers = answers' ∧ after.Alike after' := by
  have hblocks := Live.blocks_eq_of_generation h.generation (domainOf q.name)
  cases hb : st.live.blocks (domainOf q.name) with
  | true =>
    rw [resolveQuestion_blocked hb] at hq
    rw [resolveQuestion_blocked (hblocks ▸ hb)] at hq'
    cases hq
    cases hq'
    exact ⟨rfl, h⟩
  | false =>
    obtain ⟨found, cache, traffic, calls, failures, hl, hrun⟩ :=
      resolveQuestion_run w s now q hb
    obtain ⟨found', cache', traffic', calls', failures', hl', hrun'⟩ :=
      resolveQuestion_run w' s' now q (hblocks ▸ hb)
    obtain ⟨hfound, halike⟩ := h.lookUp hw hs hl hl'
    rw [hrun] at hq
    rw [hrun'] at hq'
    cases hq
    cases hq'
    exact ⟨hfound, halike.generation, halike.cache, halike.traffic⟩

theorem State.Alike.askAll {qs : List Dns.Question} {asked asked' : List Asked} (h : st.Alike st')
    (hqs : askAll w s now qs st = (asked, after))
    (hqs' : askAll w' s' now qs st' = (asked', after')) :
    asked.map Asked.shown = asked'.map Asked.shown ∧ after.Alike after' := by
  induction qs generalizing st st' asked asked' with
  | nil =>
    cases hqs
    cases hqs'
    exact ⟨rfl, h⟩
  | cons q qs ih =>
    rcases hq : (Serve.resolveQuestion w s now q).run st with ⟨first, between⟩
    rcases hq' : (Serve.resolveQuestion w' s' now q).run st' with ⟨first', between'⟩
    rcases hrest : Serve.askAll w s now qs between with ⟨rest, last⟩
    rcases hrest' : Serve.askAll w' s' now qs between' with ⟨rest', last'⟩
    rw [askAll_cons hq hrest] at hqs
    rw [askAll_cons hq' hrest'] at hqs'
    cases hqs
    cases hqs'
    obtain ⟨rfl, hbetween⟩ := h.resolveQuestion hw hs hq hq'
    obtain ⟨hshown, hlast⟩ := ih hbetween hrest hrest'
    refine ⟨?_, hlast⟩
    rw [List.map_cons, List.map_cons, hshown]
    show Shown.mk q first between.cache between.traffic :: _ = Shown.mk q first _ _ :: _
    rw [hbetween.cache, hbetween.traffic]

end Questions

/-! ## Sessions -/

/-- What an exchange shows. -/
def Exchange.shown (e : Exchange) : List Shown × Answer := (e.asked.map Asked.shown, e.answer)

/-- The turns that two sessions have in common. -/
inductive CommonTurn where
  | inquiry (world : Forward.World) (i : Inquiry)
  | clock (now : UInt64)
  | publish (g : Blocklist.Generation)

/-- What a turn has in common with that of another session, the tool left aside; edits of rules have
nothing in common. -/
def Turn.common? : Turn → Option CommonTurn
  | inquiry s i => some (.inquiry s.world i)
  | clock now => some (.clock now)
  | edit _ => none
  | publish g => some (.publish g)

structure Scene.Alike (c c' : Scene) : Prop where
  now : c.now = c'.now
  state : c.state.Alike c'.state

theorem Scene.Alike.symm {c c' : Scene} (h : c.Alike c') : c'.Alike c :=
  ⟨h.now.symm, h.state.generation.symm, h.state.cache.symm, h.state.traffic.symm⟩

section Sessions

variable {w w' : Wiring} {c c' : Scene}

/-- Edits of rules show nothing. -/
theorem Scene.Alike.edits (w' : Wiring) (h : c.Alike c') {ts : List Turn} (hts : ∀ t ∈ ts, t.common? = none) :
    ∃ last, c'.play w' ts = ([], last) ∧ c.Alike last := by
  induction ts generalizing c' with
  | nil => exact ⟨c', rfl, h⟩
  | cons t ts ih =>
    obtain ⟨ht, hrest⟩ := List.forall_mem_cons.mp hts
    cases t with
    | edit rules =>
      have hedited : c.Alike (c'.turn w' (.edit rules)).2 :=
        ⟨h.now, h.state.generation, h.state.cache, h.state.traffic⟩
      obtain ⟨last, hplay, hlast⟩ := ih hedited hrest
      refine ⟨last, ?_, hlast⟩
      rw [Scene.play]
      exact hplay
    | _ => cases ht

theorem Scene.play_append (ts us : List Turn) (c : Scene) :
    c.play w (ts ++ us) =
      ((c.play w ts).1 ++ ((c.play w ts).2.play w us).1, ((c.play w ts).2.play w us).2) := by
  induction ts generalizing c with
  | nil => rfl
  | cons t ts ih =>
    simp only [List.cons_append, play, ih, List.append_assoc]

/-- The same inquiry in surroundings that differ in the tool shows the same. -/
theorem Scene.Alike.hear (hw : w.resolver = w'.resolver) (h : c.Alike c') {s s' : Surroundings}
    (hs : s.world = s'.world) (i : Inquiry) :
    (c.hear w s i).1.shown = (c'.hear w' s' i).1.shown ∧
      (c.hear w s i).2.Alike (c'.hear w' s' i).2 := by
  rcases hqs : askAll w s c.now i.questions c.state with ⟨asked, after⟩
  rcases hqs' : askAll w' s' c'.now i.questions c'.state with ⟨asked', after'⟩
  obtain ⟨hshown, halike⟩ := h.state.askAll hw hs hqs (h.now ▸ hqs')
  have hanswers : asked.map (·.answers) = asked'.map (·.answers) := by
    have := congrArg (List.map Shown.answers) hshown
    rwa [List.map_map, List.map_map] at this
  rw [hear_eq, hear_eq, hqs, hqs']
  refine ⟨?_, h.now, halike⟩
  show (asked.map Asked.shown, i.replyWith (asked.map (·.answers)).flatten) =
    (asked'.map Asked.shown, i.replyWith (asked'.map (·.answers)).flatten)
  rw [hshown, hanswers]

/-- Turns that have the same in common show the same and keep the servers alike. -/
theorem Scene.Alike.turn (hw : w.resolver = w'.resolver) (h : c.Alike c') {t t' : Turn}
    {common : CommonTurn} (ht : t.common? = some common) (ht' : t'.common? = some common) :
    (c.turn w t).1.map Exchange.shown = (c'.turn w' t').1.map Exchange.shown ∧
      (c.turn w t).2.Alike (c'.turn w' t').2 := by
  cases t with
  | inquiry s i =>
    cases ht
    cases t' with
    | inquiry s' i' =>
      injection ht' with ht'
      injection ht' with hs hi
      subst hi
      obtain ⟨hshown, halike⟩ := h.hear hw hs.symm i'
      exact ⟨congrArg ([·]) hshown, halike⟩
    | _ => cases ht'
  | clock now =>
    cases ht
    cases t' with
    | clock now' =>
      cases ht'
      exact ⟨rfl, rfl, h.state⟩
    | _ => cases ht'
  | edit rules => cases ht
  | publish g =>
    cases ht
    cases t' with
    | publish g' =>
      cases ht'
      refine ⟨rfl, h.now, ?_, h.state.cache, h.state.traffic⟩
      have hpublish (l : Live) : (l.publish g).blocklist.map (·.generation) =
          (l.blocklist.map (·.generation)).map fun _ => g := by
        rw [Live.publish, Option.map_map, Option.map_map]
        rfl
      show (c.state.live.publish g).blocklist.map (·.generation) =
        (c'.state.live.publish g).blocklist.map (·.generation)
      rw [hpublish, hpublish, h.state.generation]
    | _ => cases ht'

/-- A session whose first common turn is known: edits, that turn, and the rest. -/
theorem Scene.Alike.firstCommon (w' : Wiring) {ts : List Turn} {common : CommonTurn}
    {rest : List CommonTurn} (h : c.Alike c') (hts : ts.filterMap Turn.common? = common :: rest) :
    ∃ t us last, t.common? = some common ∧ us.filterMap Turn.common? = rest ∧ c.Alike last ∧
      c'.play w' ts = ((last.turn w' t).1 ++ ((last.turn w' t).2.play w' us).1,
        ((last.turn w' t).2.play w' us).2) := by
  obtain ⟨edits, t, us, rfl, hedits, ht, hus⟩ := List.filterMap_eq_cons_iff.mp hts
  obtain ⟨last, hplay, hlast⟩ := h.edits w' hedits
  refine ⟨t, us, last, ht, hus, hlast, ?_⟩
  rw [Scene.play_append, hplay]
  rfl

/-- Rules and IP sets have no influence on replies.  Two servers with the same forwarders start from
the same generation of the blocklist, the same cache and the same traffic; their rules and sets are
any.  What comes in, how the network behaves, the times of the clock and the generations that are
published are the same for both; edits of rules anywhere in between and what the tool does are any.
Then every reply is the same, and after every question the cache and all that was sent are. -/
theorem replies_isolated (hw : w.resolver = w'.resolver) (h : c.Alike c') {ts ts' : List Turn}
    (hts : ts.filterMap Turn.common? = ts'.filterMap Turn.common?) :
    (c.play w ts).1.map Exchange.shown = (c'.play w' ts').1.map Exchange.shown := by
  -- the induction is on what the two sessions have in common
  generalize hcommon : ts'.filterMap Turn.common? = common at hts
  induction common generalizing c c' ts ts' with
  | nil =>
    obtain ⟨last, hplay, -⟩ := h.symm.edits w (List.filterMap_eq_nil_iff.mp hts)
    obtain ⟨last', hplay', -⟩ := h.edits w' (List.filterMap_eq_nil_iff.mp hcommon)
    rw [hplay, hplay']
  | cons t rest ih =>
    obtain ⟨t', us', last', ht', hus', hlast', hplay'⟩ := h.firstCommon w' hcommon
    obtain ⟨t, us, last, ht, hus, hlast, hplay⟩ := hlast'.symm.firstCommon w hts
    obtain ⟨hshown, halike⟩ := hlast.symm.turn hw ht ht'
    rw [hplay, hplay', List.map_append, List.map_append, hshown, ih halike hus' hus]

end Sessions

/-! ## Two sessions -/

/-- A question for the address of `a.test` comes in. -/
def addressInquiry : Inquiry := .message { header := { id := 7 }, questions := [addressQuestion] }

/-- The first server has no rules and no sets; the second one gets a rule between two questions, and
its tool is not there. -/
theorem replies_isolated_from_rule :
    let w' : Wiring := { oneForwarder with ipv4Set := some "routed" }
    let s' : Surroundings := { answering with tool := .missing "ipset" }
    let c : Scene := ⟨1000, { live := ⟨.empty, none⟩ }⟩
    let ts : List Turn := [.inquiry answering addressInquiry, .clock 1010,
      .inquiry answering addressInquiry]
    let ts' : List Turn := [.inquiry s' addressInquiry, .clock 1010,
      .edit ⟨["a.test"], by decide⟩, .inquiry s' addressInquiry]
    (c.play w' ts').2.state.calls ≠ (c.play oneForwarder ts).2.state.calls ∧
      (c.play oneForwarder ts).1.map Exchange.shown = (c.play w' ts').1.map Exchange.shown := by
  intro w' s' c ts ts'
  have halike : c.Alike c := ⟨rfl, rfl, rfl, rfl⟩
  have hcommon : ts.filterMap Turn.common? = ts'.filterMap Turn.common? := rfl
  have hforwarders : oneForwarder.resolver = w'.resolver := rfl
  exact ⟨by decide +kernel, replies_isolated hforwarders halike hcommon⟩

end DnsGate.Serve
