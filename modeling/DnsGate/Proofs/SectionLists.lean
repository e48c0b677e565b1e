import DnsGate.Proofs.Restart

/-!
The lists of the sections along a run of changes.  From the sections that settings start with, every
change keeps the lists tidy: no entry twice, a dot in front of every suffix, no capital letters
(`Tidy.change`).  A change that is made appends one entry or takes one out, and one that is not made
leaves the sections as they are; a rule that was just added is taken back by the same text.  Main
statement: `changes_keep_lists`.
-/

namespace DnsGate.Rules

/-! ## Forms -/

/-- What an entry of a kind looks like in stored form: it has no capital letter of ASCII, and a
suffix starts with a dot. -/
structure Kind.Stores (kind : Kind) (f : String) : Prop where
  folded : ∀ c ∈ f.toList, c.isUpper = false
  dotted : kind = .suffix → f.toList.head? = some '.'

theorem isUpper_of_mem_bareChars {cs : List Char} {c : Char} (h : c ∈ bareChars cs) :
    c.isUpper = false := by
  obtain ⟨d, -, rfl⟩ := List.mem_map.mp h
  exact Char.isUpper_toLower_eq_false d

/-- A dot at the start is that of the name or a new one. -/
theorem withDot_cases (cs : List Char) :
    (withDot cs = cs ∧ cs.head? = some '.') ∨ withDot cs = '.' :: cs := by
  unfold withDot
  split
  · exact .inl ⟨rfl, rfl⟩
  · exact .inr rfl

theorem Kind.stores_form (kind : Kind) (e : String) : kind.Stores (kind.form e) := by
  cases kind with
  | domain =>
    refine ⟨fun c hc => ?_, fun h => by cases h⟩
    rw [form, toList_nameForm] at hc
    exact isUpper_of_mem_bareChars hc
  | suffix =>
    have hform : (form .suffix e).toList = withDot (bareChars (Text.trimChars e.toList)) :=
      toList_suffixForm e
    rcases withDot_cases (bareChars (Text.trimChars e.toList)) with ⟨hown, hhead⟩ | hnew
    · rw [hown] at hform
      exact ⟨fun c hc => isUpper_of_mem_bareChars (hform ▸ hc), fun _ => hform ▸ hhead⟩
    · rw [hnew] at hform
      refine ⟨fun c hc => ?_, fun _ => hform ▸ rfl⟩
      rcases List.mem_cons.mp (hform ▸ hc) with rfl | hname
      · rfl
      · exact isUpper_of_mem_bareChars hname

namespace Sections

variable {s s' : Sections} {kind : Kind} {e : String}

/-! ## Single changes -/

theorem sources_setRules {es : List String} : (s.setRules kind es).sources = s.sources := by
  cases kind <;> rfl

theorem rules_setSources {sources : List String} :
    (s.setSources sources).rules kind = s.rules kind := by
  cases kind <;> rfl

theorem setRules_setRules {es es' : List String} :
    (s.setRules kind es).setRules kind es' = s.setRules kind es' := by
  cases kind <;> rfl

theorem add?_eq_some_iff : s.add? kind e = some s' ↔
    kind.form e ∉ s.rules kind ∧ s.setRules kind (s.rules kind ++ [kind.form e]) = s' := by
  unfold add? pushNew?
  split
  · rename_i he
    exact iff_of_false (by simp) fun h => h.1 he
  · rename_i he
    simp [he]

/-- A rule that was just added is taken back by the same text. -/
theorem remove?_of_add? (h : s.add? kind e = some s') : s'.remove? kind e = some s := by
  obtain ⟨hnew, rfl⟩ := add?_eq_some_iff.mp h
  have hlist : (s.setRules kind (s.rules kind ++ [kind.form e])).rules kind =
      s.rules kind ++ [kind.form e] := by
    rw [rules_setRules, if_pos rfl]
  have hback : (s.rules kind ++ [kind.form e]).filter (· ≠ kind.form e) = s.rules kind := by
    rw [List.filter_append, filter_ne_of_not_mem hnew, List.filter_singleton]
    simp
  refine remove?_eq_some_iff.mpr ⟨?_, ?_⟩
  · rw [hlist]
    exact List.mem_append_right _ List.mem_cons_self
  · rw [hlist, hback, setRules_setRules, setRules_rules]

/-! ## Runs of changes -/

/-- A change of the sections. -/
inductive Change where
  | add (kind : Kind) (entry : String)
  | remove (kind : Kind) (entry : String)
  | setSources (sources : List String)
deriving DecidableEq, Repr

/-- The sections after a change. -/
def change (s : Sections) : Change → Sections
  | .add kind e => (s.add? kind e).getD s
  | .remove kind e => (s.takeOut kind e).2
  | .setSources sources => s.setSources sources

/-- No rule is listed twice, and all are in stored form. -/
structure Tidy (s : Sections) : Prop where
  nodup : ∀ kind, (s.rules kind).Nodup
  stored : ∀ kind, ∀ f ∈ s.rules kind, kind.Stores f

/-- Nothing changes but the list of one kind. -/
structure OnlyRules (kind : Kind) (s s' : Sections) : Prop where
  rules : ∀ other, other ≠ kind → s'.rules other = s.rules other
  sources : s'.sources = s.sources

theorem onlyRules_setRules {es : List String} : OnlyRules kind s (s.setRules kind es) :=
  ⟨fun other hother => by rw [rules_setRules, if_neg hother], sources_setRules⟩

/-! ### Adding -/

theorem onlyRules_add : OnlyRules kind s (s.change (.add kind e)) := by
  show OnlyRules kind s ((s.add? kind e).getD s)
  cases h : s.add? kind e with
  | none => exact ⟨fun _ _ => rfl, rfl⟩
  | some s' =>
    obtain ⟨-, rfl⟩ := add?_eq_some_iff.mp h
    exact onlyRules_setRules

/-- A rule is added exactly if its list grows by one entry at its end. -/
theorem isSome_add?_iff : (s.add? kind e).isSome ↔
    ∃ f, (s.change (.add kind e)).rules kind = s.rules kind ++ [f] := by
  show _ ↔ ∃ f, ((s.add? kind e).getD s).rules kind = _
  cases h : s.add? kind e with
  | none => simp
  | some s' =>
    obtain ⟨-, rfl⟩ := add?_eq_some_iff.mp h
    refine iff_of_true rfl ⟨kind.form e, ?_⟩
    rw [Option.getD_some, rules_setRules, if_pos rfl]

/-! ### Taking out -/

theorem change_remove : s.change (.remove kind e) = (s.remove? kind e).getD s := getD_remove?.symm

theorem onlyRules_remove : OnlyRules kind s (s.change (.remove kind e)) :=
  onlyRules_setRules

/-- From a list without repetition, a rule is taken out exactly if one entry is and the others stay
in order. -/
theorem isSome_remove?_iff (hnodup : (s.rules kind).Nodup) : (s.remove? kind e).isSome ↔
    ∃ front f back, s.rules kind = front ++ f :: back ∧
      (s.change (.remove kind e)).rules kind = front ++ back := by
  rw [change_remove]
  cases h : s.remove? kind e with
  | none =>
    refine iff_of_false (by simp) ?_
    rintro ⟨front, f, back, hlist, hkept⟩
    rw [Option.getD_none] at hkept
    have hlength := congrArg List.length (hlist.symm.trans hkept)
    simp only [List.length_append, List.length_cons] at hlength
    omega
  | some s' =>
    obtain ⟨hmem, rfl⟩ := remove?_eq_some_iff.mp h
    obtain ⟨front, back, -, hlist, herase⟩ := List.exists_erase_eq hmem
    refine iff_of_true rfl ⟨front, kind.form e, back, hlist, ?_⟩
    rw [Option.getD_some, rules_setRules, if_pos rfl, ← herase, hnodup.erase_eq_filter]
    exact List.filter_congr fun f _ => by rw [Bool.eq_iff_iff]; simp

/-! ### Any change -/

theorem Tidy.change (h : s.Tidy) (c : Change) : (s.change c).Tidy := by
  cases c with
  | add kind e =>
    refine ⟨fun _ => nodup_getD_add? (h.nodup _), fun other f hf => ?_⟩
    rcases mem_getD_add?.mp hf with hf | ⟨rfl, rfl⟩
    · exact h.stored other f hf
    · exact other.stores_form e
  | remove kind e =>
    rw [change_remove]
    refine ⟨fun _ => nodup_getD_remove? (h.nodup _), fun other f hf => ?_⟩
    exact h.stored other f (mem_getD_remove?.mp hf).1
  | setSources sources =>
    refine ⟨fun kind => ?_, fun kind f hf => h.stored kind f ?_⟩
    · exact rules_setSources (s := s) ▸ h.nodup kind
    · exact rules_setSources (s := s) ▸ hf

theorem Tidy.changes (h : s.Tidy) (changes : List Change) :
    (changes.foldl Sections.change s).Tidy := by
  induction changes generalizing s with
  | nil => exact h
  | cons c changes ih => exact ih (h.change c)

end Sections

end DnsGate.Rules

namespace DnsGate.Settings

open Rules (Kind Sections)
open Rules.Sections (Change Tidy OnlyRules)

theorem tidy_sections (s : Settings) : s.sections.Tidy := by
  have hseed (kind : Kind) : ∃ entries, s.sections.rules kind = Sections.seed kind entries := by
    cases kind
    · exact ⟨s.rules.domains, rfl⟩
    · exact ⟨s.rules.suffixes, rfl⟩
  refine ⟨fun kind => ?_, fun kind f hf => ?_⟩
  · obtain ⟨entries, hentries⟩ := hseed kind
    rw [hentries]
    exact Sections.nodup_seed kind entries
  · obtain ⟨entries, hentries⟩ := hseed kind
    rw [hentries] at hf
    obtain ⟨e, -, rfl⟩ := Sections.mem_seed.mp hf
    exact kind.stores_form e

/-- The lists stay in order.  After any changes of the sections that settings start with, no rule is
listed twice, every suffix starts with a dot and no rule has a capital letter.  The next rule is
added exactly if one entry comes to the end of its list, and is taken out exactly if one entry
leaves its list with the others in place; otherwise nothing changes, and the other list and the
sources never do.  New sources leave both lists alone, and a rule that is added is taken back by
the same text. -/
theorem changes_keep_lists (settings : Settings) (changes : List Change) :
    let s := changes.foldl Sections.change settings.sections
    s.Tidy ∧
      (∀ kind e,
        ((s.add? kind e).isSome ↔
          ∃ f, (s.change (.add kind e)).rules kind = s.rules kind ++ [f]) ∧
        (s.add? kind e = none → s.change (.add kind e) = s) ∧
        OnlyRules kind s (s.change (.add kind e))) ∧
      (∀ kind e,
        ((s.remove? kind e).isSome ↔ ∃ front f back, s.rules kind = front ++ f :: back ∧
          (s.change (.remove kind e)).rules kind = front ++ back) ∧
        (s.remove? kind e = none → s.change (.remove kind e) = s) ∧
        OnlyRules kind s (s.change (.remove kind e))) ∧
      (∀ sources, (s.change (.setSources sources)).sources = sources ∧
        ∀ kind, (s.change (.setSources sources)).rules kind = s.rules kind) ∧
      ∀ kind e s', s.add? kind e = some s' → s'.remove? kind e = some s := by
  intro s
  have htidy : s.Tidy := (tidy_sections settings).changes changes
  refine ⟨htidy, fun kind e => ?added, fun kind e => ?takenOut, fun sources => ?sources,
    fun kind e s' => Sections.remove?_of_add?⟩
  case added =>
    exact ⟨Sections.isSome_add?_iff, fun h => congrArg (·.getD s) h, Sections.onlyRules_add⟩
  case takenOut =>
    refine ⟨Sections.isSome_remove?_iff (htidy.nodup kind), fun h => ?_, Sections.onlyRules_remove⟩
    rw [Sections.change_remove, h, Option.getD_none]
  case sources =>
    exact ⟨rfl, fun kind => Sections.rules_setSources⟩

end DnsGate.Settings
