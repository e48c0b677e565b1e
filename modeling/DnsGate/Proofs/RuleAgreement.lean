import DnsGate.Program.App
import DnsGate.Proofs.Editing
import DnsGate.Proofs.RuleStores
import DnsGate.Proofs.RuleText

/-!
Live rules against listed rules.  Requests change both stores entry by entry, but not by the same
form of the entry: the live rules pass it through the normal form once more when it is removed or
comes from the settings, and they keep both kinds in one set.  Main statement: the stores agree in
every run exactly if the entries are such that neither matters (`rules_agree_iff`); an entry with
two dots at its end is one that they part over (`rules_part`).
-/

namespace DnsGate.Rules

/-! ## Agreement -/

/-- The live rules hold the entries that the sections list, the empty ones left aside. -/
def Agree (rules : RuleSet) (sections : Sections) : Prop :=
  ∀ e, e ≠ "" → e ≠ "." →
    (e ∈ rules.domains ++ rules.suffixes ↔ e ∈ sections.domains ++ sections.suffixes)

theorem agree_iff {rules : RuleSet} {sections : Sections} :
    Agree rules sections ↔
      ∀ e, e ≠ "" → e ≠ "." → (e ∈ rules ↔ ∃ kind, e ∈ sections.rules kind) := by
  have hlisted : ∀ e, (e ∈ sections.domains ++ sections.suffixes ↔
      ∃ kind, e ∈ sections.rules kind) := by
    intro e
    rw [List.mem_append]
    constructor
    · rintro (h | h)
      · exact ⟨.domain, h⟩
      · exact ⟨.suffix, h⟩
    · rintro ⟨_ | _, h⟩
      · exact Or.inl h
      · exact Or.inr h
  unfold Agree
  simp only [RuleSet.mem_views, hlisted]

/-! ## Entries that keep the stores together -/

/-- A stored form that goes into the live rules as it is, unless it is refused there. -/
def Kind.Settled (kind : Kind) (f : String) : Prop := kind.liveForm f = f ∨ f = "."

/-- The entries of a list have stored forms of a family. -/
def Within (F : Kind → String → Prop) (kind : Kind) (entries : List String) : Prop :=
  ∀ e ∈ entries, F kind (kind.form e)

theorem within_nil {F : Kind → String → Prop} {kind : Kind} : Within F kind [] :=
  List.forall_mem_nil _

theorem within_singleton {F : Kind → String → Prop} {kind : Kind} {e : String} :
    Within F kind [e] ↔ F kind (kind.form e) :=
  List.forall_mem_singleton

/-- A family of stored forms over which the stores do not part: a second pass leaves them alone, and
no form stands for a domain and for a suffix alike, unless no request can name it. -/
structure Harmless (F : Kind → String → Prop) : Prop where
  settled : ∀ kind e, F kind (kind.form e) → kind.Settled (kind.form e)
  apart : ∀ d t, F .domain (nameForm d) → F .suffix (suffixForm t) → nameForm d = suffixForm t →
    nameForm d = "." ∨ '\n' ∈ (nameForm d).toList

/-- What a family of forms and agreement come to along a run. -/
structure InStep (F : Kind → String → Prop) (rules : RuleSet) (sections : Sections) : Prop where
  listed : ∀ kind, ∀ f ∈ sections.rules kind, ∃ e, f = kind.form e ∧ F kind f
  agree : Agree rules sections

section Entries

variable {F : Kind → String → Prop} {kind : Kind} {e f : String}

/-- What an edit hands to the live rules is in the form that the sections list. -/
theorem liveForm_of_trim (h : Text.trim e = e) : kind.liveForm e = kind.form e := by
  cases kind with
  | domain => exact (nameForm_of_trim h).symm
  | suffix => rfl

theorem nameForm_of_settled (h : Kind.suffix.Settled f) (hdot : f ≠ ".") : nameForm f = f :=
  nameForm_of_suffixForm (h.resolve_right hdot) hdot

theorem bare_of_settled (h : kind.Settled f) (hdot : f ≠ ".") : bare f = f := by
  cases kind with
  | domain => exact h.resolve_right hdot
  | suffix => exact bare_of_nameForm (nameForm_of_settled h hdot)

theorem newline_not_mem_form (kind : Kind) (h : '\n' ∉ e.toList) : '\n' ∉ (kind.form e).toList := by
  have hname := newline_not_mem_nameForm h
  cases kind with
  | domain => exact hname
  | suffix =>
    show '\n' ∉ (suffixForm e).toList
    rw [toList_suffixForm, ← toList_nameForm]
    unfold withDot
    split
    · rename_i hn
      rwa [hn] at hname
    · rw [List.mem_cons, not_or]
      exact ⟨by decide, hname⟩

/-- Forms of both kinds that a request can name are apart. -/
theorem Harmless.kind_unique (h : Harmless F) {kind' : Kind} {e' : String} (hn : '\n' ∉ e.toList)
    (he : F kind (kind.form e)) (he' : F kind' (kind'.form e'))
    (heq : kind'.form e' = kind.form e) (hdot : kind.form e ≠ ".") : kind' = kind := by
  have hnf := newline_not_mem_form kind hn
  cases kind with
  | domain =>
    cases kind' with
    | domain => rfl
    | suffix => exact absurd (h.apart e e' he he' heq.symm) (not_or.mpr ⟨hdot, hnf⟩)
  | suffix =>
    cases kind' with
    | domain =>
      rw [← heq] at hdot hnf
      exact absurd (h.apart e' e he' he heq) (not_or.mpr ⟨hdot, hnf⟩)
    | suffix => rfl

/-! ## One entry -/

variable {rules rules' : RuleSet} {sections : Sections}

theorem InStep.add (h : InStep F rules sections) (ht : Text.trim e = e) (he : F kind (kind.form e))
    (hadd : rules.add? kind e = some rules') :
    InStep F rules' ((sections.add? kind e).getD sections) := by
  constructor
  · intro k f hf
    rcases Sections.mem_getD_add?.mp hf with hf | ⟨rfl, rfl⟩
    · exact h.listed k f hf
    · exact ⟨e, rfl, he⟩
  · rw [agree_iff]
    intro x hne hdot
    rw [RuleSet.mem_of_add? hadd, liveForm_of_trim ht, agree_iff.mp h.agree x hne hdot]
    simp only [Sections.mem_getD_add?, exists_or, exists_eq_left]
    exact or_comm

theorem InStep.remove (h : InStep F rules sections) (hF : Harmless F) (hn : '\n' ∉ e.toList)
    (he : F kind (kind.form e)) (hremove : rules.removeKind? kind e = some rules') :
    InStep F rules' ((sections.remove? kind e).getD sections) := by
  constructor
  · intro k f hf
    exact h.listed k f (Sections.mem_getD_remove?.mp hf).1
  · rw [agree_iff]
    intro x hne hdot
    rw [RuleSet.mem_of_removeKind? hremove, agree_iff.mp h.agree x hne hdot]
    simp only [Sections.mem_getD_remove?]
    by_cases hform : kind.form e = "."
    · -- the live rules lose at most the empty name, the sections at most the dot
      rw [hform]
      have hbare : bare "." = "" := by decide
      simp [hbare, hne, hdot]
    · rw [bare_of_settled (hF.settled kind e he) hform]
      constructor
      · rintro ⟨hx, k, hk⟩
        exact ⟨k, hk, fun hboth => hx hboth.2⟩
      · rintro ⟨k, hk, hnot⟩
        refine ⟨?_, k, hk⟩
        rintro rfl
        obtain ⟨e', heq, he'⟩ := h.listed k _ hk
        rw [heq] at he'
        exact hnot ⟨hF.kind_unique hn he he' heq.symm hform, rfl⟩

end Entries

end DnsGate.Rules

namespace DnsGate.Admin

open Rules (Kind Harmless InStep Within Agree bare nameForm suffixForm entriesOf)

section Requests

variable {F : Kind → String → Prop} {edit : Edit} {kind : Kind}

theorem editEntry_inStep (hF : Harmless F) {r : Report} {s : State} {e : String}
    (ht : Text.trim e = e) (hn : '\n' ∉ e.toList) (he : F kind (kind.form e))
    (h : InStep F s.live.rules s.sections) :
    InStep F (editEntry edit kind (r, s) e).2.live.rules
      (editEntry edit kind (r, s) e).2.sections := by
  cases hlive : editLive? edit kind e s.live.rules with
  | none => rwa [editEntry_skipped hlive]
  | some rules =>
    rw [editEntry_counted hlive]
    cases edit with
    | add => exact h.add ht he hlive
    | remove => exact h.remove hF hn he hlive

/-- Removing an entry takes it out of the live rules whatever the sections list for other kinds. -/
theorem editEntry_remove {r : Report} {s : State} {e : String} :
    bare (kind.form e) ∉ (editEntry .remove kind (r, s) e).2.live.rules ∧
      ∀ k f, k ≠ kind → f ∈ s.sections.rules k →
        f ∈ (editEntry .remove kind (r, s) e).2.sections.rules k := by
  cases hlive : editLive? .remove kind e s.live.rules with
  | none =>
    rw [editEntry_skipped hlive]
    exact ⟨Rules.RuleSet.erase?_eq_none_iff.mp hlive, fun _ _ _ hf => hf⟩
  | some rules =>
    rw [editEntry_counted hlive]
    refine ⟨fun hmem => ((Rules.RuleSet.mem_of_removeKind? hlive).mp hmem).1 rfl, ?_⟩
    intro k f hk hf
    exact Rules.Sections.mem_getD_remove?.mpr ⟨hf, fun h => hk h.1⟩

/-! ## Requests -/

/-- A request to add or to remove rules: its body lists one entry per line. -/
structure RuleRequest where
  edit : Edit
  kind : Kind
  body : String

def RuleRequest.request (r : RuleRequest) : Request := .edit r.edit r.kind (entriesOf r.body)

/-- What the request does to the live rules and to the sections. -/
def RuleRequest.apply (s : State) (r : RuleRequest) : State :=
  (editRules r.edit r.kind (entriesOf r.body) s).2

/-- What an edit of any entry keeps, requests keep whose entries have forms of a family. -/
theorem RuleRequest.foldl_keeps {P : State → Prop}
    (hentry : ∀ (edit : Edit) (kind : Kind) (r : Report) (s : State) {e : String}, Text.trim e = e →
      '\n' ∉ e.toList → F kind (kind.form e) → P s → P (editEntry edit kind (r, s) e).2)
    {requests : List RuleRequest} (hr : ∀ r ∈ requests, Within F r.kind (entriesOf r.body))
    {s : State} (h : P s) : P (requests.foldl apply s) := by
  have hentries (edit : Edit) (kind : Kind) (es : List String) (r : Report) (s : State)
      (hes : ∀ e ∈ es, Text.trim e = e ∧ '\n' ∉ e.toList ∧ F kind (kind.form e)) (h : P s) :
      P (es.foldl (editEntry edit kind) (r, s)).2 := by
    induction es generalizing r s with
    | nil => exact h
    | cons e es ih =>
      obtain ⟨ht, hn, he⟩ := hes e List.mem_cons_self
      exact ih _ _ (fun e' he' => hes e' (List.mem_cons_of_mem _ he')) (hentry edit kind r s ht hn he h)
  induction requests generalizing s with
  | nil => exact h
  | cons r rs ih =>
    refine ih (fun r' hr' => hr r' (List.mem_cons_of_mem _ hr')) (hentries r.edit r.kind _ {} s ?_ h)
    intro e he
    exact ⟨Rules.trim_of_mem_entriesOf he, Rules.newline_of_mem_entriesOf he,
      hr r List.mem_cons_self e he⟩

/-- A request to remove one entry takes it out of the live rules and out of the list of its kind
only. -/
theorem RuleRequest.apply_remove (kind : Kind) {s : State} {body e : String}
    (hbody : entriesOf body = [e]) :
    bare (kind.form e) ∉ (apply s ⟨.remove, kind, body⟩).live.rules ∧
      ∀ k f, k ≠ kind → f ∈ s.sections.rules k →
        f ∈ (apply s ⟨.remove, kind, body⟩).sections.rules k := by
  unfold apply
  rw [hbody]
  exact editEntry_remove

end Requests

end DnsGate.Admin

namespace DnsGate.Settings

/-- The rule entries of a kind. -/
def RuleLists.of (l : RuleLists) : Rules.Kind → List String
  | .domain => l.domains
  | .suffix => l.suffixes

theorem mem_sections {s : Settings} {kind : Rules.Kind} {f : String} :
    f ∈ s.sections.rules kind ↔ ∃ e ∈ s.rules.of kind, f = kind.form e := by
  cases kind with
  | domain => exact Rules.Sections.mem_seed
  | suffix => exact Rules.Sections.mem_seed

end DnsGate.Settings

namespace DnsGate.Program

open Admin (RuleRequest)
open Rules (Kind Harmless InStep Within Agree RuleSet bare nameForm suffixForm entriesOf)
open Settings (mem_sections)

/-! ## Runs -/

/-- What the management interface works on. -/
def State.admin (st : State) : Admin.State := ⟨st.serve.live, st.sections⟩

/-- The state after some requests to add and to remove rules. -/
def State.afterRequests (st : State) (p : Plan) (requests : List RuleRequest) : State :=
  requests.foldl (fun st r => (st.execute p r.request).2) st

/-- Saving the sections, which may fail, does not act back on them. -/
theorem execute_admin (st : State) (p : Plan) (r : RuleRequest) :
    (st.execute p r.request).2.admin = RuleRequest.apply st.admin r := rfl

theorem afterRequests_admin (st : State) (p : Plan) (requests : List RuleRequest) :
    (st.afterRequests p requests).admin = requests.foldl RuleRequest.apply st.admin := by
  induction requests generalizing st with
  | nil => rfl
  | cons r rs ih =>
    rw [List.foldl_cons, ← execute_admin st p r, ← ih]
    rfl

section Agreement

variable {F : Kind → String → Prop}

theorem apply_inStep (hF : Harmless F) {requests : List RuleRequest} {s : Admin.State}
    (hr : ∀ r ∈ requests, Within F r.kind (entriesOf r.body))
    (h : InStep F s.live.rules s.sections) :
    InStep F (requests.foldl RuleRequest.apply s).live.rules
      (requests.foldl RuleRequest.apply s).sections :=
  RuleRequest.foldl_keeps (P := fun s => InStep F s.live.rules s.sections)
    (fun _ _ _ _ _ => Admin.editEntry_inStep hF) hr h

theorem startLive_inStep (hF : Harmless F) {settings : Settings}
    (hs : ∀ kind, Within F kind (settings.rules.of kind)) :
    InStep F (startLive settings).rules settings.sections := by
  constructor
  · intro kind f hf
    obtain ⟨e, he, rfl⟩ := mem_sections.mp hf
    exact ⟨e, rfl, hs kind e he⟩
  · rw [Rules.agree_iff]
    intro x hne hdot
    refine RuleSet.mem_ofRules.trans (exists_congr fun kind => ?_)
    constructor
    · rintro ⟨f, hf, rfl, -⟩
      obtain ⟨e, he, rfl⟩ := mem_sections.mp hf
      rcases hF.settled kind e (hs kind e he) with hset | hset
      · rwa [hset]
      · -- what the live rules make of a dot alone is left aside
        rw [hset] at hne hdot
        cases kind with
        | domain => exact absurd (by decide) hne
        | suffix => exact absurd (by decide) hdot
    · intro hx
      obtain ⟨e, he, rfl⟩ := mem_sections.mp hx
      refine ⟨kind.form e, hx, ?_, ?_⟩
      · exact ((hF.settled kind e (hs kind e he)).resolve_right hdot).symm
      · cases kind with
        | domain => exact hne
        | suffix => exact hdot

/-! ## Where the stores part -/

/-- In every run over a family of forms, live and listed rules agree. -/
def AlwaysAgree (F : Kind → String → Prop) : Prop :=
  ∀ (settings : Settings) (path : String) (disk : Files.Disk) (requests : List RuleRequest),
    (∀ kind, Within F kind (settings.rules.of kind)) →
    (∀ r ∈ requests, Within F r.kind (entriesOf r.body)) →
    let st := (startState settings disk).afterRequests (planFor settings path) requests
    Agree st.serve.live.rules st.sections

theorem AlwaysAgree.apply (h : AlwaysAgree F) (settings : Settings) (requests : List RuleRequest)
    (hs : ∀ kind, Within F kind (settings.rules.of kind))
    (hr : ∀ r ∈ requests, Within F r.kind (entriesOf r.body)) :
    Agree (requests.foldl RuleRequest.apply (startState settings {}).admin).live.rules
      (requests.foldl RuleRequest.apply (startState settings {}).admin).sections := by
  rw [← afterRequests_admin _ (planFor settings "")]
  exact h settings "" {} requests hs hr

/-- At the start every listed form is the live form of a listed one. -/
theorem AlwaysAgree.start (h : AlwaysAgree F) {l : Settings.RuleLists}
    (hl : ∀ kind, Within F kind (l.of kind)) {kind : Kind} {e : String} (he : e ∈ l.of kind)
    (hne : kind.form e ≠ "") (hdot : kind.form e ≠ ".") :
    ∃ k, ∃ e' ∈ l.of k, kind.form e = k.liveForm (k.form e') := by
  have hagree := h.apply { rules := l } [] hl (List.forall_mem_nil _)
  have hlisted := mem_sections (s := { rules := l }).mpr ⟨e, he, rfl⟩
  have hlive := (Rules.agree_iff.mp hagree _ hne hdot).mpr ⟨kind, hlisted⟩
  obtain ⟨k, f, hf, hform, -⟩ := RuleSet.mem_ofRules.mp hlive
  obtain ⟨e', he', rfl⟩ := mem_sections.mp hf
  exact ⟨k, e', he', hform⟩

/-- An entry alone in the settings is listed in its form and live in the live form of that. -/
theorem AlwaysAgree.settled (h : AlwaysAgree F) {kind : Kind} {e : String}
    (he : F kind (kind.form e)) : kind.Settled (kind.form e) := by
  by_cases hdot : kind.form e = "."
  · exact Or.inr hdot
  refine Or.inl ?_
  cases kind with
  | domain =>
    by_cases hne : Kind.domain.form e = ""
    · rw [hne]
      decide
    have hl : ∀ kind, Within F kind ((⟨[e], []⟩ : Settings.RuleLists).of kind) := by
      rintro (_ | _)
      · exact Rules.within_singleton.mpr he
      · exact Rules.within_nil
    obtain ⟨_ | _, e', he', hform⟩ := h.start hl (List.mem_singleton_self e) hne hdot
    · obtain rfl := List.mem_singleton.mp he'
      exact hform.symm
    · cases he'
  | suffix =>
    have hl : ∀ kind, Within F kind ((⟨[], [e]⟩ : Settings.RuleLists).of kind) := by
      rintro (_ | _)
      · exact Rules.within_nil
      · exact Rules.within_singleton.mpr he
    have hne : Kind.suffix.form e ≠ "" := Rules.suffixForm_ne_empty e
    obtain ⟨_ | _, e', he', hform⟩ := h.start hl (List.mem_singleton_self e) hne hdot
    · cases he'
    · obtain rfl := List.mem_singleton.mp he'
      exact hform.symm

/-- A form listed for both kinds is taken out of the live rules once and stays listed for the other
kind. -/
theorem AlwaysAgree.apart (h : AlwaysAgree F) {d t : String} (hd : F .domain (nameForm d))
    (ht : F .suffix (suffixForm t)) (heq : nameForm d = suffixForm t) :
    nameForm d = "." ∨ '\n' ∈ (nameForm d).toList := by
  by_contra hnot
  obtain ⟨hdot, hn⟩ := not_or.mp hnot
  have hne : nameForm d ≠ "" := by
    rw [heq]
    exact Rules.suffixForm_ne_empty t
  have hset : Kind.suffix.Settled (nameForm d) := by
    rw [heq]
    exact h.settled ht
  have hname : Kind.domain.form (nameForm d) = nameForm d := Rules.nameForm_of_settled hset hdot
  have hbody : entriesOf (nameForm d) = [nameForm d] :=
    Rules.entriesOf_self (Rules.trim_of_nameForm hname) hn hne
  have hs : ∀ kind, Within F kind ((⟨[d], [t]⟩ : Settings.RuleLists).of kind) := by
    rintro (_ | _)
    · exact Rules.within_singleton.mpr hd
    · exact Rules.within_singleton.mpr ht
  have hr : Within F .domain (entriesOf (nameForm d)) := by
    rw [hbody, Rules.within_singleton, hname]
    exact hd
  have hagree := h.apply { rules := ⟨[d], [t]⟩ } [⟨.remove, .domain, nameForm d⟩] hs
    (List.forall_mem_singleton.mpr hr)
  generalize hst : (startState { rules := ⟨[d], [t]⟩ } {}).admin = s at hagree
  have hmem : nameForm d ∈ s.sections.rules .suffix := by
    rw [← hst]
    exact mem_sections.mpr ⟨t, List.mem_singleton_self t, heq⟩
  obtain ⟨hgone, hlisted⟩ := RuleRequest.apply_remove .domain (s := s) hbody
  rw [hname, Rules.bare_of_nameForm hname] at hgone
  rw [List.foldl_cons, List.foldl_nil, Rules.agree_iff] at hagree
  exact hgone ((hagree _ hne hdot).mpr ⟨.suffix, hlisted .suffix _ (by decide) hmem⟩)

/-- Live and listed rules agree in every run over a family of stored forms exactly if the family is
harmless. -/
theorem rules_agree_iff (F : Kind → String → Prop) : AlwaysAgree F ↔ Harmless F := by
  constructor
  · intro h
    exact ⟨fun _ _ he => h.settled he, fun _ _ hd ht heq => h.apart hd ht heq⟩
  · intro h settings path disk requests hs hr
    have hrun := apply_inStep h hr (s := (startState settings disk).admin) (startLive_inStep h hs)
    rw [← afterRequests_admin _ (planFor settings path)] at hrun
    exact hrun.agree

end Agreement

/-- Two requests over which the stores part.  The form of the entry with two dots at its end keeps
one of them; when the entry is removed, that dot goes as well, and with it the other entry from the
live rules. -/
def partingRequests : List RuleRequest :=
  [⟨.add, .domain, "a.test\na.test.."⟩, ⟨.remove, .domain, "a.test.."⟩]

theorem not_agree_of_admin {st : State} {s : Admin.State} (hs : st.admin = s) {e : String}
    (hne : e ≠ "") (hdot : e ≠ ".") {kind : Kind} (hlisted : e ∈ s.sections.rules kind)
    (hlive : e ∉ s.live.rules) : ¬ Agree st.serve.live.rules st.sections := by
  subst hs
  exact fun h => hlive ((Rules.agree_iff.mp h e hne hdot).mpr ⟨kind, hlisted⟩)

theorem rules_part :
    let st := (startState {} {}).afterRequests (planFor {} "") partingRequests
    ¬ Agree st.serve.live.rules st.sections := by
  have hlisted : "a.test" ∈ (partingRequests.foldl RuleRequest.apply
      (startState {} {}).admin).sections.rules .domain := by
    decide
  have hlive : "a.test" ∉ (partingRequests.foldl RuleRequest.apply
      (startState {} {}).admin).live.rules := by
    decide
  exact not_agree_of_admin (afterRequests_admin _ _ _) (by decide) (by decide) hlisted hlive

end DnsGate.Program
