import Mathlib
import DnsGate.Proofs.RuleAgreement

/-!
The live rules as two sets, one for each kind.  The rules keep the forms of both kinds in one set,
and look up and take out a form after one more pass through the normal form; two sets of forms would
do neither.  Main statement: over a family of entries the rules answer every sequence of calls as
two sets would exactly if no form of an entry ends with a dot and no domain has the form of a suffix
(`as_two_sets_iff`); entries that break either rule are answered otherwise (`calls_part`).
-/

namespace DnsGate.Rules

/-! ## Calls -/

/-- An entry as requests hand it on: trimmed, and not empty. -/
structure Entry where
  text : String
  trimmed : Text.trim text = text
  nonempty : text ≠ ""

/-- What the live rules are called for. -/
inductive Action where
  | add
  | remove
  | contains

/-- A call with an entry of a kind. -/
structure Call where
  action : Action
  kind : Kind
  entry : Entry

/-- The stored form of an entry. -/
def Kind.key (kind : Kind) (e : Entry) : String := kind.form e.text

/-- The live rules carry out a call. -/
def RuleSet.call (s : RuleSet) (c : Call) : Bool × RuleSet :=
  match c.action with
  | .add => ((s.add? c.kind c.entry.text).isSome, (s.add? c.kind c.entry.text).getD s)
  | .remove =>
    ((s.removeKind? c.kind c.entry.text).isSome, (s.removeKind? c.kind c.entry.text).getD s)
  | .contains => (s.hasKind c.kind c.entry.text, s)

/-- A set of forms for each kind. -/
abbrev KindSets := Kind → Finset String

/-- Two sets carry out a call.  The set of the kind takes a form that it does not hold yet, unless
the form says nothing; it loses a form that it holds; and the other set stays as it is. -/
def KindSets.call (s : KindSets) (c : Call) : Bool × KindSets :=
  let key := c.kind.key c.entry
  match c.action with
  | .add =>
    if key = c.kind.blank ∨ key ∈ s c.kind then (false, s)
    else (true, Function.update s c.kind (insert key (s c.kind)))
  | .remove =>
    if key ∈ s c.kind then (true, Function.update s c.kind ((s c.kind).erase key)) else (false, s)
  | .contains => (decide (key ∈ s c.kind), s)

/-- The answers to calls, one after the other. -/
def answers {σ : Type} (call : σ → Call → Bool × σ) : σ → List Call → List Bool
  | _, [] => []
  | s, c :: cs => (call s c).1 :: answers call (call s c).2 cs

/-! ## Forms -/

section Forms

variable {kind : Kind} {e : Entry} {f : String}

theorem bare_eq_self_iff (hlow : f.toList.map Char.toLower = f.toList) :
    bare f = f ↔ f.toList.getLast? ≠ some '.' := by
  rw [← String.toList_inj, toList_bare, bareChars, Text.dropLastOne]
  split
  · rename_i hlast
    refine iff_of_false (fun h => ?_) (not_not_intro hlast)
    have hlen := congrArg List.length h
    rw [List.length_map, List.length_dropLast] at hlen
    obtain ⟨cs, hcs⟩ := List.getLast?_eq_some_iff.mp hlast
    rw [hcs, List.length_append, List.length_singleton] at hlen
    omega
  · rename_i hlast
    exact iff_of_true hlow hlast

theorem lower_withDot {cs : List Char} (h : cs.map Char.toLower = cs) :
    (withDot cs).map Char.toLower = withDot cs := by
  unfold withDot
  split
  · exact h
  · have hdot : Char.toLower '.' = '.' := by decide
    rw [List.map_cons, h, hdot]

theorem lower_key (kind : Kind) (e : Entry) :
    (kind.key e).toList.map Char.toLower = (kind.key e).toList := by
  have hname : (nameForm e.text).toList.map Char.toLower = (nameForm e.text).toList := by
    rw [toList_nameForm, bareChars, List.map_map]
    exact List.map_congr_left fun c _ => Char.toLower_toLower_eq_toLower c
  cases kind with
  | domain => exact hname
  | suffix =>
    show (suffixForm e.text).toList.map Char.toLower = (suffixForm e.text).toList
    rw [toList_suffixForm, ← toList_nameForm]
    exact lower_withDot hname

theorem bare_key_iff : bare (kind.key e) = kind.key e ↔ (kind.key e).toList.getLast? ≠ some '.' :=
  bare_eq_self_iff (lower_key kind e)

theorem bare_blank (kind : Kind) : bare kind.blank = "" := by
  cases kind <;> decide

theorem liveForm_key (kind : Kind) (e : Entry) : kind.liveForm e.text = kind.key e :=
  liveForm_of_trim e.trimmed

end Forms

/-! ## Families of entries -/

variable {E : Kind → Entry → Prop}

/-- A family of entries over which the kinds stay apart: no form ends with a dot unless it is
refused, and no domain has the form of a suffix. -/
structure KeptApart (E : Kind → Entry → Prop) : Prop where
  undotted : ∀ kind e, E kind e → kind.key e ≠ kind.blank →
    (kind.key e).toList.getLast? ≠ some '.'
  apart : ∀ d t, E .domain d → E .suffix t → Kind.domain.key d ≠ Kind.suffix.key t

theorem KeptApart.bare_key (h : KeptApart E) {kind : Kind} {e : Entry} (he : E kind e)
    (hne : kind.key e ≠ kind.blank) : bare (kind.key e) = kind.key e :=
  bare_key_iff.mpr (h.undotted kind e he hne)

theorem KeptApart.kind_eq (h : KeptApart E) {k k' : Kind} {e e' : Entry} (he : E k e)
    (he' : E k' e') (heq : k.key e = k'.key e') : k = k' := by
  cases k with
  | domain =>
    cases k' with
    | domain => rfl
    | suffix => exact absurd heq (h.apart e e' he he')
  | suffix =>
    cases k' with
    | domain => exact absurd heq.symm (h.apart e' e he' he)
    | suffix => rfl

/-- The rules hold what the two sets hold, and these hold forms of the family only. -/
structure Simulates (E : Kind → Entry → Prop) (s : RuleSet) (sets : KindSets) : Prop where
  mem_iff : ∀ x, x ∈ s ↔ ∃ kind, x ∈ sets kind
  named : ∀ kind, ∀ x ∈ sets kind, ∃ e, E kind e ∧ kind.key e = x ∧ x ≠ kind.blank

theorem simulates_empty : Simulates E .empty fun _ => ∅ := by
  constructor
  · intro x
    refine iff_of_false List.not_mem_nil ?_
    rintro ⟨kind, hx⟩
    exact absurd hx (Finset.notMem_empty x)
  · intro kind x hx
    exact absurd hx (Finset.notMem_empty x)

section Step

variable {s s' : RuleSet} {sets : KindSets} {kind : Kind} {e : Entry}

theorem Simulates.empty_notMem (h : Simulates E s sets) : "" ∉ s := by
  intro hmem
  obtain ⟨kind, hx⟩ := (h.mem_iff "").mp hmem
  obtain ⟨e, -, hkey, hne⟩ := h.named kind "" hx
  cases kind with
  | domain => exact hne rfl
  | suffix => exact suffixForm_ne_empty e.text hkey

/-- A form is looked up in the rules as it is in the set of its kind. -/
theorem Simulates.bare_mem_iff (h : Simulates E s sets) (hE : KeptApart E) (he : E kind e) :
    bare (kind.key e) ∈ s ↔ kind.key e ∈ sets kind := by
  by_cases hblank : kind.key e = kind.blank
  · rw [hblank, bare_blank]
    refine iff_of_false h.empty_notMem fun hmem => ?_
    obtain ⟨e', -, -, hne⟩ := h.named kind _ hmem
    exact hne rfl
  · rw [hE.bare_key he hblank, h.mem_iff]
    constructor
    · rintro ⟨k, hk⟩
      obtain ⟨e', he', hkey, -⟩ := h.named k _ hk
      rwa [hE.kind_eq he' he hkey] at hk
    · exact fun hk => ⟨kind, hk⟩

/-- The set of one kind is replaced, and the rules change with it. -/
theorem Simulates.update (h : Simulates E s sets) {t : Finset String}
    (hmem : ∀ x, x ∈ s' ↔ x ∈ t ∨ ∃ k ≠ kind, x ∈ sets k)
    (hnamed : ∀ x ∈ t, ∃ e, E kind e ∧ kind.key e = x ∧ x ≠ kind.blank) :
    Simulates E s' (Function.update sets kind t) := by
  constructor
  · intro x
    rw [hmem]
    constructor
    · rintro (hx | ⟨k, hk, hx⟩)
      · exact ⟨kind, by rwa [Function.update_self]⟩
      · exact ⟨k, by rwa [Function.update_of_ne hk]⟩
    · rintro ⟨k, hx⟩
      by_cases hk : k = kind
      · subst hk
        exact Or.inl (by rwa [Function.update_self] at hx)
      · exact Or.inr ⟨k, hk, by rwa [Function.update_of_ne hk] at hx⟩
  · intro k x hx
    by_cases hk : k = kind
    · subst hk
      exact hnamed x (by rwa [Function.update_self] at hx)
    · exact h.named k x (by rwa [Function.update_of_ne hk] at hx)

theorem Simulates.mem_split (h : Simulates E s sets) (kind : Kind) (x : String) :
    x ∈ s ↔ x ∈ sets kind ∨ ∃ k ≠ kind, x ∈ sets k := by
  rw [h.mem_iff]
  constructor
  · rintro ⟨k, hk⟩
    by_cases hkind : k = kind
    · exact Or.inl (hkind ▸ hk)
    · exact Or.inr ⟨k, hkind, hk⟩
  · rintro (hx | ⟨k, -, hk⟩)
    · exact ⟨kind, hx⟩
    · exact ⟨k, hk⟩

theorem Simulates.insert (h : Simulates E s sets) (he : E kind e) (hne : kind.key e ≠ kind.blank)
    (hins : s.insert? (kind.key e) = some s') :
    Simulates E s' (Function.update sets kind (insert (kind.key e) (sets kind))) := by
  refine h.update (fun x => ?_) fun x hx => ?_
  · rw [RuleSet.mem_of_insert? hins, h.mem_split kind, Finset.mem_insert, or_assoc]
  · rcases Finset.mem_insert.mp hx with rfl | hx
    · exact ⟨e, he, rfl, hne⟩
    · exact h.named kind x hx

theorem Simulates.erase (h : Simulates E s sets) (hE : KeptApart E) (he : E kind e)
    (hrem : s.erase? (kind.key e) = some s') :
    Simulates E s' (Function.update sets kind ((sets kind).erase (kind.key e))) := by
  refine h.update (fun x => ?_) fun x hx => h.named kind x (Finset.mem_of_mem_erase hx)
  have hother : (∃ k ≠ kind, x ∈ sets k) → x ≠ kind.key e := by
    rintro ⟨k, hk, hx⟩ rfl
    obtain ⟨e', he', hkey, -⟩ := h.named k _ hx
    exact hk (hE.kind_eq he' he hkey)
  rw [RuleSet.mem_of_erase? hrem, h.mem_split kind, Finset.mem_erase, and_or_left,
    and_iff_right_of_imp hother]

/-! ## One call -/

theorem Simulates.add (h : Simulates E s sets) (hE : KeptApart E) (he : E kind e) :
    (s.call ⟨.add, kind, e⟩).1 = (sets.call ⟨.add, kind, e⟩).1 ∧
      Simulates E (s.call ⟨.add, kind, e⟩).2 (sets.call ⟨.add, kind, e⟩).2 := by
  simp only [RuleSet.call, KindSets.call, RuleSet.add?_eq, liveForm_key]
  by_cases hblank : kind.key e = kind.blank
  · simp [hblank, h]
  have hheld := h.bare_mem_iff hE he
  rw [hE.bare_key he hblank, ← RuleSet.insert?_eq_none_iff] at hheld
  cases hins : s.insert? (kind.key e) with
  | none => simp [hblank, hheld.mp hins, h]
  | some s' =>
    have hnew : kind.key e ∉ sets kind := by
      rw [← hheld, hins]
      exact Option.some_ne_none s'
    simp [hblank, hnew, h.insert he hblank hins]

theorem Simulates.remove (h : Simulates E s sets) (hE : KeptApart E) (he : E kind e) :
    (s.call ⟨.remove, kind, e⟩).1 = (sets.call ⟨.remove, kind, e⟩).1 ∧
      Simulates E (s.call ⟨.remove, kind, e⟩).2 (sets.call ⟨.remove, kind, e⟩).2 := by
  have hform : s.removeKind? kind e.text = s.erase? (bare (kind.key e)) := rfl
  simp only [RuleSet.call, KindSets.call, hform]
  have hheld := not_congr (h.bare_mem_iff hE he)
  rw [← RuleSet.erase?_eq_none_iff] at hheld
  cases hrem : s.erase? (bare (kind.key e)) with
  | none => simp [hheld.mp hrem, h]
  | some s' =>
    have hmem : kind.key e ∈ sets kind := by
      by_contra hno
      rw [hheld.mpr hno] at hrem
      cases hrem
    obtain ⟨-, -, -, hne⟩ := h.named kind _ hmem
    rw [hE.bare_key he hne] at hrem
    simp [hmem, h.erase hE he hrem]

theorem Simulates.contains (h : Simulates E s sets) (hE : KeptApart E) (he : E kind e) :
    (s.call ⟨.contains, kind, e⟩).1 = (sets.call ⟨.contains, kind, e⟩).1 ∧
      Simulates E (s.call ⟨.contains, kind, e⟩).2 (sets.call ⟨.contains, kind, e⟩).2 :=
  ⟨decide_eq_decide.mpr (h.bare_mem_iff hE he), h⟩

/-- One call is answered alike, and the sets still hold what the rules hold. -/
theorem Simulates.call (h : Simulates E s sets) (hE : KeptApart E) {c : Call}
    (hc : E c.kind c.entry) :
    (s.call c).1 = (sets.call c).1 ∧ Simulates E (s.call c).2 (sets.call c).2 := by
  obtain ⟨_ | _ | _, kind, e⟩ := c
  · exact h.add hE hc
  · exact h.remove hE hc
  · exact h.contains hE hc

/-! ## Sequences of calls -/

theorem Simulates.answers_eq (h : Simulates E s sets) (hE : KeptApart E) {calls : List Call}
    (hcalls : ∀ c ∈ calls, E c.kind c.entry) :
    answers RuleSet.call s calls = answers KindSets.call sets calls := by
  induction calls generalizing s sets with
  | nil => rfl
  | cons c calls ih =>
    obtain ⟨hc, hcalls⟩ := List.forall_mem_cons.mp hcalls
    obtain ⟨hanswer, hnext⟩ := h.call hE hc
    rw [answers, answers, hanswer, ih hnext hcalls]

end Step

/-- Starting empty, the rules answer every sequence of calls over a family as two sets would. -/
def AsTwoSets (E : Kind → Entry → Prop) : Prop :=
  ∀ calls : List Call, (∀ c ∈ calls, E c.kind c.entry) →
    answers RuleSet.call .empty calls = answers KindSets.call (fun _ => ∅) calls

/-! ## Two calls -/

section Pair

variable {k k' : Kind} {e e' : Entry}

/-- An entry is added to the empty rules, and another one is looked up. -/
theorem answers_rules_pair (hne : k.key e ≠ k.blank) :
    answers RuleSet.call .empty [⟨.add, k, e⟩, ⟨.contains, k', e'⟩] =
      [true, decide (bare (k'.key e') = k.key e)] := by
  have hadd : RuleSet.empty.add? k e.text = some ⟨[k.key e], List.nodup_singleton _⟩ := by
    rw [RuleSet.add?_eq, liveForm_key, if_neg hne]
    rfl
  have hmem : bare (k'.key e') ∈ (⟨[k.key e], List.nodup_singleton _⟩ : RuleSet) ↔
      bare (k'.key e') = k.key e := List.mem_singleton
  simp only [answers, RuleSet.call, hadd, Option.isSome_some, Option.getD_some]
  exact congrArg (fun b => [true, b]) (decide_eq_decide.mpr hmem)

theorem answers_sets_pair (hne : k.key e ≠ k.blank) :
    answers KindSets.call (fun _ => ∅) [⟨.add, k, e⟩, ⟨.contains, k', e'⟩] =
      [true, decide (k' = k ∧ k'.key e' = k.key e)] := by
  have hmem : k'.key e' ∈ Function.update (fun _ => (∅ : Finset String)) k
      (insert (k.key e) ∅) k' ↔ k' = k ∧ k'.key e' = k.key e := by
    rw [Function.update_apply]
    split
    · rename_i hk
      simp [hk]
    · rename_i hk
      simp [hk]
  simp only [answers, KindSets.call, hne, Finset.notMem_empty, or_self, if_false]
  exact congrArg (fun b => [true, b]) (decide_eq_decide.mpr hmem)

theorem AsTwoSets.pair (h : AsTwoSets E) (he : E k e) (he' : E k' e') (hne : k.key e ≠ k.blank) :
    bare (k'.key e') = k.key e ↔ k' = k ∧ k'.key e' = k.key e := by
  have hanswers := h [⟨.add, k, e⟩, ⟨.contains, k', e'⟩] (by simp [he, he'])
  rw [answers_rules_pair hne, answers_sets_pair hne] at hanswers
  have hsecond := (List.cons.inj (List.cons.inj hanswers).2).1
  exact decide_eq_decide.mp hsecond

end Pair

/-- The rules answer as two sets in every sequence of calls over a family of entries exactly if the
family keeps the kinds apart. -/
theorem as_two_sets_iff (E : Kind → Entry → Prop) : AsTwoSets E ↔ KeptApart E := by
  constructor
  · intro h
    have hundotted : ∀ kind e, E kind e → kind.key e ≠ kind.blank →
        (kind.key e).toList.getLast? ≠ some '.' := by
      intro kind e he hne
      exact bare_key_iff.mp ((h.pair he he hne).mpr ⟨rfl, rfl⟩)
    refine ⟨hundotted, fun d t hd ht heq => ?_⟩
    have hne : Kind.domain.key d ≠ Kind.domain.blank := by
      rw [heq]
      exact suffixForm_ne_empty t.text
    have hbare : bare (Kind.suffix.key t) = Kind.domain.key d := by
      rw [← heq]
      exact bare_key_iff.mpr (hundotted .domain d hd hne)
    exact absurd ((h.pair hd ht hne).mp hbare).1 (by decide)
  · intro hE calls hcalls
    exact simulates_empty.answers_eq hE hcalls

/-- Calls that the rules answer otherwise.  The form of the first entry ends with a dot, which is
taken off when it is looked up or taken out; that of the second one is the form of a suffix as
well. -/
def partingCalls : List Call :=
  let dotted : Entry := ⟨"a.test..", by decide, by decide⟩
  let domain : Entry := ⟨".b.test", by decide, by decide⟩
  let suffix : Entry := ⟨"b.test", by decide, by decide⟩
  [⟨.add, .domain, dotted⟩, ⟨.contains, .domain, dotted⟩, ⟨.remove, .domain, dotted⟩,
    ⟨.add, .domain, domain⟩, ⟨.contains, .suffix, suffix⟩]

theorem calls_part :
    answers RuleSet.call .empty partingCalls = [true, false, false, true, true] ∧
      answers KindSets.call (fun _ => ∅) partingCalls = [true, true, true, true, false] ∧
      ¬ AsTwoSets fun _ _ => True := by
  have hrules : answers RuleSet.call .empty partingCalls = [true, false, false, true, true] := by
    decide
  have hsets : answers KindSets.call (fun _ => ∅) partingCalls =
      [true, true, true, true, false] := by
    decide
  refine ⟨hrules, hsets, fun h => ?_⟩
  have hsame := h partingCalls fun _ _ => trivial
  rw [hrules, hsets] at hsame
  exact absurd hsame (by decide)

end DnsGate.Rules
