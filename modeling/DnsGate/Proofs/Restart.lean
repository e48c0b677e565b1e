import DnsGate.Proofs.RuleAgreement

/-!
What a restart makes of the rules.  Saving writes the lists of the sections into the settings, and
the next start brings their entries into stored form once more and builds the live rules from them.
Main statement: lists and verdicts outlast a restart after every run exactly if the entries are such
that a second pass leaves their forms alone and none stands for both kinds (`restart_keeps_iff`); an
entry with two dots at its end is one that does not (`restart_parts`).
-/

namespace DnsGate.Rules

/-! ## Verdicts -/

section Verdicts

variable {s s' : RuleSet}

/-- The verdict on a name depends on the entries alone. -/
theorem RuleSet.covers_congr (h : ∀ e, e ∈ s ↔ e ∈ s') (name : String) :
    s.covers name = s'.covers name := by
  unfold covers containsExact matchesSuffix
  simp only [h]

theorem RuleSet.covers_of_mem {e : String} (h : bare e ∈ s) : s.covers e = true := by
  unfold covers containsExact
  rw [decide_eq_true h, Bool.true_or]

theorem RuleSet.covers_of_forall_not_mem (h : ∀ e, e ∉ s) (name : String) :
    s.covers name = false := by
  unfold covers containsExact matchesSuffix
  simp [h]

end Verdicts

/-! ## Lists without repetition -/

namespace Sections

variable {s : Sections} {kind kind' : Kind} {e : String} {es : List String}

theorem nodup_getD_pushNew? (h : es.Nodup) : ((pushNew? es e).getD es).Nodup := by
  unfold pushNew?
  split
  · exact h
  · rename_i he
    rw [Option.getD_some, ← List.concat_eq_append]
    exact h.concat he

theorem nodup_seed (kind : Kind) (entries : List String) : (seed kind entries).Nodup := by
  have hfold (es : List String) (h : es.Nodup) :
      (entries.foldl (fun es e => (pushNew? es (kind.form e)).getD es) es).Nodup := by
    induction entries generalizing es with
    | nil => exact h
    | cons e entries ih => exact ih _ (nodup_getD_pushNew? h)
  exact hfold [] List.nodup_nil

theorem nodup_getD_add? (h : (s.rules kind').Nodup) :
    (((s.add? kind e).getD s).rules kind').Nodup := by
  unfold add?
  cases hpush : pushNew? (s.rules kind) (kind.form e) with
  | none => exact h
  | some es =>
    rw [Option.map_some, Option.getD_some, rules_setRules]
    split
    · rename_i hkind
      subst hkind
      have hnodup := nodup_getD_pushNew? (e := kind'.form e) h
      rwa [hpush] at hnodup
    · exact h

theorem nodup_getD_remove? (h : (s.rules kind').Nodup) :
    (((s.remove? kind e).getD s).rules kind').Nodup := by
  rw [getD_remove?, takeOut, rules_setRules]
  split
  · rename_i hkind
    subst hkind
    exact h.filter _
  · exact h

/-- Entries that are in stored form already are listed as they are. -/
theorem seed_of_forms (h : es.Nodup) (hforms : ∀ e ∈ es, kind.form e = e) : seed kind es = es := by
  have hfold (before : List String) (hnodup : (before ++ es).Nodup) :
      es.foldl (fun es e => (pushNew? es (kind.form e)).getD es) before = before ++ es := by
    induction es generalizing before with
    | nil => exact (List.append_nil before).symm
    | cons e es ih =>
      have hnew : e ∉ before := fun he => (List.nodup_append.mp hnodup).2.2 e he e List.mem_cons_self rfl
      rw [List.foldl_cons, hforms e List.mem_cons_self, pushNew?, if_neg hnew, Option.getD_some,
        ih (List.nodup_cons.mp h).2 (fun e' he' => hforms e' (List.mem_cons_of_mem _ he')),
        List.append_assoc, List.singleton_append]
      rwa [List.append_assoc, List.singleton_append]
  exact hfold [] h

end Sections

/-! ## Entries that outlast a restart -/

/-- A family of stored forms that outlast a restart: the normal form of its kind leaves each of them
alone, and none stands for a domain and for a suffix alike, unless no request can name it. -/
structure Steady (F : Kind → String → Prop) : Prop where
  stable : ∀ kind e, F kind (kind.form e) → kind.form (kind.form e) = kind.form e
  apart : ∀ d t, F .domain (nameForm d) → F .suffix (suffixForm t) → nameForm d = suffixForm t →
    '\n' ∈ (nameForm d).toList

section Steady

variable {F : Kind → String → Prop} {kind : Kind} {f : String}

/-- A form that its normal form leaves alone goes into the live rules as it is. -/
theorem liveForm_of_form (h : kind.form f = f) : kind.liveForm f = f := by
  cases kind with
  | domain => exact bare_of_nameForm h
  | suffix => exact h

theorem Steady.harmless (h : Steady F) : Harmless F where
  settled := fun kind e he => Or.inl (liveForm_of_form (h.stable kind e he))
  apart := fun d t hd ht heq => Or.inr (h.apart d t hd ht heq)

/-- A form that its normal form leaves alone is refused by the live rules only if it is empty. -/
theorem ne_blank_iff (h : kind.form f = f) : f ≠ kind.blank ↔ f ≠ "" ∧ f ≠ "." := by
  cases kind with
  | domain =>
    refine (and_iff_left ?_).symm
    rintro rfl
    exact absurd h (by decide)
  | suffix =>
    refine (and_iff_right ?_).symm
    rintro rfl
    exact suffixForm_ne_empty "" h

end Steady

/-- What holds along a run over a steady family: live and listed rules are in step, no list has an
entry twice, and no live entry is empty. -/
structure Restartable (F : Kind → String → Prop) (rules : RuleSet) (sections : Sections) : Prop where
  inStep : InStep F rules sections
  nodup : ∀ kind, (sections.rules kind).Nodup
  named : ∀ e ∈ rules, e ≠ "" ∧ e ≠ "."

section Restartable

variable {F : Kind → String → Prop} {rules : RuleSet} {sections : Sections}

theorem Restartable.form_eq (hF : Steady F) (h : Restartable F rules sections) {kind : Kind}
    {f : String} (hf : f ∈ sections.rules kind) : kind.form f = f := by
  obtain ⟨e, rfl, he⟩ := h.inStep.listed kind f hf
  exact hF.stable kind e he

/-- The lists make the same lists again. -/
theorem Restartable.seed_eq (hF : Steady F) (h : Restartable F rules sections) (kind : Kind) :
    Sections.seed kind (sections.rules kind) = sections.rules kind :=
  Sections.seed_of_forms (h.nodup kind) fun _ hf => h.form_eq hF hf

/-- The lists make the same live rules again. -/
theorem Restartable.mem_ofRules (hF : Steady F) (h : Restartable F rules sections) (e : String) :
    e ∈ RuleSet.ofRules sections.domains sections.suffixes ↔ e ∈ rules := by
  have hlisted : e ∈ RuleSet.ofRules sections.domains sections.suffixes ↔
      (∃ kind, e ∈ sections.rules kind) ∧ e ≠ "" ∧ e ≠ "." := by
    rw [RuleSet.mem_ofRules]
    constructor
    · rintro ⟨kind, f, hf, rfl, hblank⟩
      have hform := h.form_eq hF hf
      rw [liveForm_of_form hform] at hblank ⊢
      exact ⟨⟨kind, hf⟩, (ne_blank_iff hform).mp hblank⟩
    · rintro ⟨⟨kind, hf⟩, hne⟩
      have hform := h.form_eq hF hf
      exact ⟨kind, e, hf, (liveForm_of_form hform).symm, (ne_blank_iff hform).mpr hne⟩
  rw [hlisted]
  constructor
  · rintro ⟨hkind, hne, hdot⟩
    exact (agree_iff.mp h.inStep.agree e hne hdot).mpr hkind
  · intro he
    obtain ⟨hne, hdot⟩ := h.named e he
    exact ⟨(agree_iff.mp h.inStep.agree e hne hdot).mp he, hne, hdot⟩

end Restartable

end DnsGate.Rules

namespace DnsGate.Admin

open Rules (Kind Steady Restartable RuleSet Within entriesOf)

section Requests

variable {F : Kind → String → Prop} {edit : Edit} {kind : Kind}

theorem editEntry_restartable (hF : Steady F) {r : Report} {s : State} {e : String}
    (ht : Text.trim e = e) (hn : '\n' ∉ e.toList) (he : F kind (kind.form e))
    (h : Restartable F s.live.rules s.sections) :
    Restartable F (editEntry edit kind (r, s) e).2.live.rules
      (editEntry edit kind (r, s) e).2.sections := by
  refine ⟨editEntry_inStep hF.harmless ht hn he h.inStep, ?_, ?_⟩
  · intro kind'
    cases hlive : editLive? edit kind e s.live.rules with
    | none =>
      rw [editEntry_skipped hlive]
      exact h.nodup kind'
    | some rules =>
      rw [editEntry_counted hlive]
      cases edit with
      | add => exact Rules.Sections.nodup_getD_add? (h.nodup kind')
      | remove => exact Rules.Sections.nodup_getD_remove? (h.nodup kind')
  · intro x hx
    cases hlive : editLive? edit kind e s.live.rules with
    | none =>
      rw [editEntry_skipped hlive] at hx
      exact h.named x hx
    | some rules =>
      rw [editEntry_counted hlive] at hx
      cases edit with
      | add =>
        rcases (RuleSet.mem_of_add? hlive).mp hx with rfl | hx
        · -- the live rules have refused the one empty form that the family may hold
          have hform := hF.stable kind e he
          rw [Rules.liveForm_of_trim ht]
          refine (Rules.ne_blank_iff hform).mp fun hblank => ?_
          have hrefused := RuleSet.add?_eq s.live.rules kind e
          rw [Rules.liveForm_of_trim ht, if_pos hblank] at hrefused
          cases hrefused.symm.trans hlive
        · exact h.named x hx
      | remove => exact h.named x ((RuleSet.mem_of_removeKind? hlive).mp hx).2

/-- A request to remove the one live rule leaves none. -/
theorem RuleRequest.apply_remove_only {s : State} {body e : String} (hbody : entriesOf body = [e])
    (hlive : ∀ x ∈ s.live.rules, x = Rules.bare (kind.form e)) (x : String) :
    x ∉ (apply s ⟨.remove, kind, body⟩).live.rules := by
  intro hx
  have hgone := (apply_remove kind (s := s) hbody).1
  unfold apply editRules at hx hgone
  rw [hbody, List.foldl_cons, List.foldl_nil] at hx hgone
  cases hrules : editLive? .remove kind e s.live.rules with
  | none =>
    rw [editEntry_skipped hrules] at hx hgone
    rw [hlive x hx] at hx
    exact hgone hx
  | some rules =>
    rw [editEntry_counted hrules] at hx
    obtain ⟨hne, hx⟩ := (RuleSet.mem_of_removeKind? hrules).mp hx
    exact hne (hlive x hx)

end Requests

end DnsGate.Admin

namespace DnsGate.Program

open Admin (RuleRequest)
open Rules (Kind Steady Restartable Within RuleSet nameForm suffixForm entriesOf)
open Settings (mem_sections)

/-! ## Restarts -/

/-- The state at the next start: the lists stand in the settings, and everything is set up again. -/
def State.restarted (st : State) (settings : Settings) : State :=
  startState (settings.withSections st.sections) st.disk

/-- After a restart the lists and the verdict on every name are as they were. -/
def State.Outlasts (st : State) (settings : Settings) : Prop :=
  (∀ kind, (st.restarted settings).sections.rules kind = st.sections.rules kind) ∧
    ∀ name, (st.restarted settings).serve.live.rules.covers name = st.serve.live.rules.covers name

/-- After every run over a family of forms, a restart keeps lists and verdicts. -/
def AlwaysKept (F : Kind → String → Prop) : Prop :=
  ∀ (settings : Settings) (path : String) (disk : Files.Disk) (requests : List RuleRequest),
    (∀ kind, Within F kind (settings.rules.of kind)) →
    (∀ r ∈ requests, Within F r.kind (entriesOf r.body)) →
    ((startState settings disk).afterRequests (planFor settings path) requests).Outlasts settings

theorem restarted_rules (st : State) (settings : Settings) (kind : Kind) :
    (st.restarted settings).sections.rules kind =
      Rules.Sections.seed kind (st.sections.rules kind) := by
  cases kind <;> rfl

theorem restarted_live (st : State) (settings : Settings) :
    (st.restarted settings).serve.live.rules =
      RuleSet.ofRules (Rules.Sections.seed .domain st.sections.domains)
        (Rules.Sections.seed .suffix st.sections.suffixes) := rfl

section Kept

variable {F : Kind → String → Prop}

theorem startLive_restartable (hF : Steady F) {settings : Settings}
    (hs : ∀ kind, Within F kind (settings.rules.of kind)) :
    Restartable F (startLive settings).rules settings.sections := by
  have hinStep := startLive_inStep hF.harmless hs
  refine ⟨hinStep, ?_, ?_⟩
  · rintro (_ | _)
    · exact Rules.Sections.nodup_seed _ _
    · exact Rules.Sections.nodup_seed _ _
  · intro x hx
    obtain ⟨kind, f, hf, rfl, hblank⟩ := RuleSet.mem_ofRules.mp hx
    obtain ⟨e, rfl, he⟩ := hinStep.listed kind f hf
    have hform := hF.stable kind e he
    rw [Rules.liveForm_of_form hform] at hblank ⊢
    exact (Rules.ne_blank_iff hform).mp hblank

theorem outlasts_of_restartable (hF : Steady F) {st : State} {settings : Settings}
    (h : Restartable F st.serve.live.rules st.sections) : st.Outlasts settings := by
  refine ⟨fun kind => (restarted_rules st settings kind).trans (h.seed_eq hF kind), ?_⟩
  intro name
  rw [restarted_live]
  have hdomains : Rules.Sections.seed .domain st.sections.domains = st.sections.domains :=
    h.seed_eq hF .domain
  have hsuffixes : Rules.Sections.seed .suffix st.sections.suffixes = st.sections.suffixes :=
    h.seed_eq hF .suffix
  rw [hdomains, hsuffixes]
  exact RuleSet.covers_congr (h.mem_ofRules hF) name

/-! ## Where a restart does not keep the rules -/

theorem AlwaysKept.apply (h : AlwaysKept F) (settings : Settings) (requests : List RuleRequest)
    (hs : ∀ kind, Within F kind (settings.rules.of kind))
    (hr : ∀ r ∈ requests, Within F r.kind (entriesOf r.body)) :
    ∃ st : State, st.admin = requests.foldl RuleRequest.apply (startState settings {}).admin ∧
      st.Outlasts settings :=
  ⟨_, afterRequests_admin _ _ _, h settings "" {} requests hs hr⟩

/-- An entry alone in the settings is listed in its form, and after a restart in the form of
that. -/
theorem AlwaysKept.stable (h : AlwaysKept F) {kind : Kind} {e : String} (he : F kind (kind.form e)) :
    kind.form (kind.form e) = kind.form e := by
  have hlists : ∃ l : Settings.RuleLists, l.of kind = [e] ∧ ∀ kind, Within F kind (l.of kind) := by
    cases kind with
    | domain =>
      refine ⟨⟨[e], []⟩, rfl, ?_⟩
      rintro (_ | _)
      · exact Rules.within_singleton.mpr he
      · exact Rules.within_nil
    | suffix =>
      refine ⟨⟨[], [e]⟩, rfl, ?_⟩
      rintro (_ | _)
      · exact Rules.within_nil
      · exact Rules.within_singleton.mpr he
  obtain ⟨l, hl, hs⟩ := hlists
  obtain ⟨st, hst, hkept, -⟩ := h.apply { rules := l } [] hs (List.forall_mem_nil _)
  have hlisted : st.sections.rules kind = Rules.Sections.seed kind (l.of kind) := by
    have hsections : st.sections = (Settings.mk {} {} {} {} l {}).sections :=
      congrArg Admin.State.sections hst
    rw [hsections]
    cases kind <;> rfl
  have hagain := hkept kind
  rw [restarted_rules, hlisted, hl] at hagain
  exact List.head_eq_of_cons_eq hagain

/-- If all entries in the settings come to one form, nothing else is live at the start. -/
theorem eq_of_mem_startLive {settings : Settings} {f x : String}
    (hf : ∀ kind, ∀ e ∈ settings.rules.of kind, kind.liveForm (kind.form e) = f)
    (hx : x ∈ (startLive settings).rules) : x = f := by
  obtain ⟨kind, g, hg, rfl, -⟩ := RuleSet.mem_ofRules.mp hx
  obtain ⟨e, he, rfl⟩ := mem_sections.mp hg
  exact hf kind e he

/-- What is listed as a suffix is live after a restart. -/
theorem covers_restarted {st : State} {settings : Settings} {f : String}
    (hf : f ∈ st.sections.rules .suffix) (hform : suffixForm f = f) (hname : nameForm f = f)
    (hdot : f ≠ ".") : (st.restarted settings).serve.live.rules.covers f = true := by
  refine RuleSet.covers_of_mem ?_
  rw [Rules.bare_of_nameForm hname, restarted_live]
  have hlisted : f ∈ Rules.Sections.seed .suffix st.sections.suffixes :=
    Rules.Sections.mem_seed.mpr ⟨f, hf, hform.symm⟩
  have hlive := @RuleSet.mem_ofRules (st.restarted settings).sections f
  exact hlive.mpr ⟨.suffix, f, hlisted, hform.symm, hdot⟩

/-- A form listed for both kinds is taken out of the live rules once, and the list of the other kind
brings it back. -/
theorem AlwaysKept.apart (h : AlwaysKept F) {d t : String} (hd : F .domain (nameForm d))
    (ht : F .suffix (suffixForm t)) (heq : nameForm d = suffixForm t) :
    '\n' ∈ (nameForm d).toList := by
  by_contra hn
  have hname : Kind.domain.form (nameForm d) = nameForm d := h.stable hd
  have hsuffix : Kind.suffix.form (suffixForm t) = suffixForm t := h.stable ht
  rw [← heq] at hsuffix
  have hbare := Rules.bare_of_nameForm hname
  have hempty : nameForm d ≠ "" := by
    rw [heq]
    exact Rules.suffixForm_ne_empty t
  have hne := (Rules.ne_blank_iff hname).mp hempty
  have hbody : entriesOf (nameForm d) = [nameForm d] :=
    Rules.entriesOf_self (Rules.trim_of_nameForm hname) hn hne.1
  have hs : ∀ kind, Within F kind ((⟨[d], [t]⟩ : Settings.RuleLists).of kind) := by
    rintro (_ | _)
    · exact Rules.within_singleton.mpr hd
    · exact Rules.within_singleton.mpr ht
  have hr : Within F .domain (entriesOf (nameForm d)) := by
    rw [hbody, Rules.within_singleton, hname]
    exact hd
  obtain ⟨st, hst, -, hverdict⟩ := h.apply { rules := ⟨[d], [t]⟩ }
    [⟨.remove, .domain, nameForm d⟩] hs (List.forall_mem_singleton.mpr hr)
  have hlive {x : String} : x ∈ (startLive { rules := ⟨[d], [t]⟩ }).rules → x = nameForm d := by
    refine eq_of_mem_startLive ?_
    rintro (_ | _) e he
    · obtain rfl := List.mem_singleton.mp he
      exact hbare
    · obtain rfl := List.mem_singleton.mp he
      exact (congrArg suffixForm heq).symm.trans hsuffix
  have hlisted : nameForm d ∈ (Settings.mk {} {} {} {} ⟨[d], [t]⟩ {}).sections.rules .suffix :=
    mem_sections.mpr ⟨t, List.mem_singleton_self t, heq⟩
  rw [List.foldl_cons, List.foldl_nil] at hst
  -- before the restart nothing is live, after it the suffix is
  have hbefore : st.serve.live.rules.covers (nameForm d) = false := by
    refine RuleSet.covers_of_forall_not_mem (s := st.admin.live.rules) ?_ (nameForm d)
    rw [hst]
    refine RuleRequest.apply_remove_only hbody ?_
    rw [hname, hbare]
    exact fun _ => hlive
  have hmem : nameForm d ∈ st.admin.sections.rules .suffix := by
    rw [hst]
    exact (RuleRequest.apply_remove .domain hbody).2 .suffix (nameForm d) (by decide) hlisted
  have hafter := hverdict (nameForm d)
  rw [covers_restarted hmem hsuffix hname hne.2, hbefore] at hafter
  cases hafter

/-- A restart keeps the lists and the verdict on every name, after every run over a family of stored
forms, exactly if the family is steady. -/
theorem restart_keeps_iff (F : Kind → String → Prop) : AlwaysKept F ↔ Steady F := by
  constructor
  · intro h
    exact ⟨fun _ _ he => h.stable he, fun _ _ hd ht heq => h.apart hd ht heq⟩
  · intro hF settings path disk requests hs hr
    have hrun := RuleRequest.foldl_keeps (P := fun s => Restartable F s.live.rules s.sections)
      (fun _ _ _ _ _ => Admin.editEntry_restartable hF) hr
      (s := (startState settings disk).admin) (startLive_restartable hF hs)
    rw [← afterRequests_admin _ (planFor settings path)] at hrun
    exact outlasts_of_restartable hF hrun

end Kept

/-- An entry with two dots at its end is listed with one.  A restart takes that dot as well, and
then covers a name that was not covered. -/
theorem restart_parts :
    let st := (startState {} {}).afterRequests (planFor {} "") [⟨.add, .domain, "a.test.."⟩]
    ¬ st.Outlasts {} ∧ st.sections.domains = ["a.test."] ∧
      (st.restarted {}).sections.domains = ["a.test"] ∧
      st.serve.live.rules.covers "a.test" = false ∧
      (st.restarted {}).serve.live.rules.covers "a.test" = true := by
  intro st
  have hst : st.admin = [⟨.add, .domain, "a.test.."⟩].foldl RuleRequest.apply (startState {} {}).admin :=
    afterRequests_admin _ _ _
  have hsections : st.sections = ⟨["a.test."], [], []⟩ :=
    (congrArg Admin.State.sections hst).trans (by decide)
  have hlive : st.serve.live.rules = ⟨["a.test."], by decide⟩ :=
    (congrArg (·.live.rules) hst).trans (by decide)
  have hagain : (st.restarted {}).sections.domains = ["a.test"] := by
    unfold State.restarted
    rw [hsections]
    decide
  have hcovers : (st.restarted {}).serve.live.rules.covers "a.test" = true := by
    rw [restarted_live, hsections]
    decide
  refine ⟨fun h => ?_, congrArg Rules.Sections.domains hsections, hagain, ?_, hcovers⟩
  · have hlists := h.1 .domain
    rw [show (st.restarted {}).sections.rules .domain = ["a.test"] from hagain, hsections] at hlists
    exact absurd hlists (by decide)
  · rw [hlive]
    decide

end DnsGate.Program
