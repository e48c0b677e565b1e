import DnsGate.Proofs.Session

/-!
What the IP sets are fed with.  A question whose name is blocked, or that no rule covers, leads to
no call of the tool.  Any other question leads to one call for every address in its answers whose
family has a set, in their order, wherever the answers come from and whichever calls fail.  Main
statement: the calls of a session are those of its questions, one question after the other
(`calls_of_session`).
-/

namespace DnsGate.Serve

/-! ## The calls of a question -/

/-- The calls for a record: one for an address whose family has a set, none for anything else. -/
def Wiring.callsFor (w : Wiring) (r : Dns.Record) : List IpSet.Call :=
  match r.data with
  | .a ip => w.ipv4Set.toList.map fun set => .add set (.v4 ip) r.ttl.toNat
  | .aaaa ip => w.ipv6Set.toList.map fun set => .add set (.v6 ip) r.ttl.toNat
  | _ => []

/-- The calls for a question that was asked. -/
def Asked.calls (w : Wiring) (a : Asked) : List IpSet.Call :=
  if a.live.blocks (domainOf a.question.name) = true ∨
      a.live.rules.covers (domainOf a.question.name) = false then []
  else a.answers.flatMap w.callsFor

section Cases

variable {w : Wiring} {l : Live} {q : Dns.Question} {rs : List Dns.Record} {cache : Cache.Store}
  {traffic : Forward.Traffic}

theorem Asked.calls_of_blocked (h : l.blocks (domainOf q.name) = true) :
    Asked.calls w ⟨l, q, rs, cache, traffic⟩ = [] := if_pos (Or.inl h)

theorem Asked.calls_of_uncovered (h : l.rules.covers (domainOf q.name) = false) :
    Asked.calls w ⟨l, q, rs, cache, traffic⟩ = [] := if_pos (Or.inr h)

theorem Asked.calls_of_covered (hb : l.blocks (domainOf q.name) = false)
    (hc : l.rules.covers (domainOf q.name) = true) :
    Asked.calls w ⟨l, q, rs, cache, traffic⟩ = rs.flatMap w.callsFor :=
  if_neg (by simp [hb, hc])

end Cases

theorem toList_callFor? (w : Wiring) (r : Dns.Record) : (w.callFor? r).toList = w.callsFor r := by
  unfold Wiring.callFor? Wiring.callsFor Dns.Record.address?
  cases r.data with
  | a ip => cases w.ipv4Set <;> rfl
  | aaaa ip => cases w.ipv6Set <;> rfl
  | _ => rfl

/-! ## Calls that are made -/

section Calls

variable {w : Wiring} {s : Surroundings} {now : UInt64}

/-- A call is made, the last one first, whether it fails or not. -/
theorem callTool_calls (call : IpSet.Call) (st : State) :
    ((callTool s call).run st).2.calls = call :: st.calls := rfl

theorem feed_calls (rs : List Dns.Record) (st : State) :
    ((feed w s rs).run st).2.calls.reverse = st.calls.reverse ++ rs.flatMap w.callsFor := by
  induction rs generalizing st with
  | nil => exact (List.append_nil _).symm
  | cons r rs ih =>
    unfold feed
    rw [List.flatMap_cons, ← toList_callFor?]
    cases w.callFor? r with
    | none => exact ih st
    | some call =>
      show ((feed w s rs).run ((callTool s call).run st).2).2.calls.reverse = _
      rw [ih, callTool_calls, List.reverse_cons, List.append_assoc]
      rfl

theorem resolveQuestion_calls {q : Dns.Question} {st after : State} {answers : List Dns.Record}
    (h : (resolveQuestion w s now q).run st = (answers, after)) :
    after.calls.reverse = st.calls.reverse ++
      Asked.calls w ⟨st.live, q, answers, after.cache, after.traffic⟩ := by
  cases hb : st.live.blocks (domainOf q.name) with
  | true =>
    rw [resolveQuestion_blocked hb] at h
    cases h
    rw [Asked.calls_of_blocked hb, List.append_nil]
  | false =>
    obtain ⟨found, cache, traffic, hl⟩ := lookUp_run w s now q st
    rw [resolveQuestion_allowed hb hl] at h
    cases hc : st.live.rules.covers (domainOf q.name) with
    | true =>
      rw [if_pos hc] at h
      cases h
      rw [Asked.calls_of_covered hb hc, feed_calls]
    | false =>
      rw [if_neg (by simp [hc])] at h
      cases h
      rw [Asked.calls_of_uncovered hc, List.append_nil]

theorem askAll_calls (qs : List Dns.Question) (st : State) :
    (askAll w s now qs st).2.calls.reverse =
      st.calls.reverse ++ (askAll w s now qs st).1.flatMap (·.calls w) := by
  induction qs generalizing st with
  | nil => exact (List.append_nil _).symm
  | cons q qs ih =>
    rcases hq : (resolveQuestion w s now q).run st with ⟨answers, after⟩
    rcases hqs : askAll w s now qs after with ⟨asked, last⟩
    have hrest := ih after
    rw [hqs] at hrest
    rw [askAll_cons hq hqs, List.flatMap_cons, ← List.append_assoc, ← resolveQuestion_calls hq]
    exact hrest

end Calls

/-! ## Sessions -/

section Sessions

variable (w : Wiring)

theorem turn_calls (t : Turn) (c : Scene) :
    (c.turn w t).2.state.calls.reverse = c.state.calls.reverse ++
      ((c.turn w t).1.flatMap (·.asked)).flatMap (·.calls w) := by
  cases t with
  | inquiry s i =>
    show (c.hear w s i).2.state.calls.reverse = c.state.calls.reverse ++
      ([(c.hear w s i).1].flatMap (·.asked)).flatMap (·.calls w)
    rw [Scene.hear_eq, List.flatMap_singleton]
    exact askAll_calls i.questions c.state
  | clock now => exact (List.append_nil _).symm
  | edit rules => exact (List.append_nil _).symm
  | publish g => exact (List.append_nil _).symm

/-- The IP sets are fed with the answers of covered names.  Whatever comes in, and however the clock
is set, rules are edited and the blocklist is replaced in between, and whichever calls fail: the
calls of a session are, in order, those of its questions.  They are none for a question whose name
was blocked or not covered at that moment; otherwise one for every answer that carries an address,
with the set of its family, the address and the time to live, but none where that set is not
configured. -/
theorem calls_of_session (ts : List Turn) (c : Scene) :
    (c.play w ts).2.state.calls.reverse =
      c.state.calls.reverse ++ (c.asked w ts).flatMap (·.calls w) := by
  induction ts generalizing c with
  | nil => exact (List.append_nil _).symm
  | cons t ts ih =>
    show (((c.turn w t).2.play w ts).2).state.calls.reverse = c.state.calls.reverse ++
      (((c.turn w t).1 ++ ((c.turn w t).2.play w ts).1).flatMap (·.asked)).flatMap (·.calls w)
    rw [ih, turn_calls, List.flatMap_append, List.flatMap_append, List.append_assoc]
    rfl

end Sessions

end DnsGate.Serve
