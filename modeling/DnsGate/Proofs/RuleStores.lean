import DnsGate.Rules.RuleSet
import DnsGate.Rules.Sections

/-!
What the two stores of rules hold after each of their operations.  The live rules keep entries of
both kinds in one set, the sections keep one list for each kind; an operation that changes nothing
leaves the store as it was.
-/

namespace DnsGate.Rules

/-- The form in which the live rules take an entry. -/
def Kind.liveForm : Kind → String → String
  | .domain => bare
  | .suffix => suffixForm

/-- The form that the live rules refuse. -/
def Kind.blank : Kind → String
  | .domain => ""
  | .suffix => "."

namespace RuleSet

variable {s s' : RuleSet} {kind : Kind} {e x : String}

/-! ## The live rules -/

theorem mem_of_insert? (h : s.insert? e = some s') : x ∈ s' ↔ x = e ∨ x ∈ s := by
  unfold insert? at h
  split at h
  · cases h
  · cases h
    exact List.mem_cons

theorem size_of_insert? (h : s.insert? e = some s') : s'.size = s.size + 1 := by
  unfold insert? at h
  split at h
  · cases h
  · cases h
    rfl

theorem insert?_eq_none_iff : s.insert? e = none ↔ e ∈ s := by
  unfold insert?
  split
  · rename_i he
    exact iff_of_true rfl he
  · rename_i he
    exact iff_of_false (Option.some_ne_none _) he

theorem mem_of_erase? (h : s.erase? e = some s') : x ∈ s' ↔ x ≠ e ∧ x ∈ s := by
  unfold erase? at h
  split at h
  · cases h
    exact s.nodup.mem_erase_iff
  · cases h

theorem erase?_eq_none_iff : s.erase? e = none ↔ e ∉ s := by
  unfold erase?
  split
  · rename_i he
    exact iff_of_false (Option.some_ne_none _) (not_not_intro he)
  · rename_i he
    exact iff_of_true rfl he

theorem add?_eq (s : RuleSet) (kind : Kind) (e : String) :
    s.add? kind e =
      if kind.liveForm e = kind.blank then none else s.insert? (kind.liveForm e) := by
  cases kind <;> rfl

theorem add?_eq_none_iff :
    s.add? kind e = none ↔ kind.liveForm e = kind.blank ∨ kind.liveForm e ∈ s := by
  rw [add?_eq]
  split
  · rename_i hblank
    exact iff_of_true rfl (Or.inl hblank)
  · rename_i hblank
    rw [insert?_eq_none_iff]
    exact (or_iff_right hblank).symm

theorem mem_of_add? (h : s.add? kind e = some s') : x ∈ s' ↔ x = kind.liveForm e ∨ x ∈ s := by
  rw [add?_eq] at h
  split at h
  · cases h
  · exact mem_of_insert? h

theorem size_of_add? (h : s.add? kind e = some s') : s'.size = s.size + 1 := by
  rw [add?_eq] at h
  split at h
  · cases h
  · exact size_of_insert? h

theorem mem_of_removeKind? (h : s.removeKind? kind e = some s') :
    x ∈ s' ↔ x ≠ bare (kind.form e) ∧ x ∈ s :=
  mem_of_erase? h

/-- What there is after an entry was added, whether or not that changed anything. -/
theorem mem_getD_add? :
    x ∈ (s.add? kind e).getD s ↔ (x = kind.liveForm e ∧ x ≠ kind.blank) ∨ x ∈ s := by
  rw [add?_eq]
  split
  · rename_i hblank
    rw [Option.getD_none, ← hblank]
    exact ⟨Or.inr, fun h => h.resolve_left fun h => h.2 h.1⟩
  · rename_i hblank
    cases hins : s.insert? (kind.liveForm e) with
    | none =>
      rw [Option.getD_none]
      refine ⟨Or.inr, ?_⟩
      rintro (⟨rfl, -⟩ | h)
      · exact insert?_eq_none_iff.mp hins
      · exact h
    | some s' =>
      rw [Option.getD_some, mem_of_insert? hins]
      refine or_congr_left ⟨?_, And.left⟩
      rintro rfl
      exact ⟨rfl, hblank⟩

theorem mem_foldl_add? (s : RuleSet) (kind : Kind) (es : List String) :
    x ∈ es.foldl (fun s e => (s.add? kind e).getD s) s ↔
      (∃ e ∈ es, x = kind.liveForm e ∧ x ≠ kind.blank) ∨ x ∈ s := by
  induction es generalizing s with
  | nil => simp
  | cons e es ih =>
    rw [List.foldl_cons, ih, mem_getD_add?, ← or_assoc]
    refine or_congr_left ?_
    simp only [List.mem_cons, exists_eq_or_imp]
    exact or_comm

/-- The two views together show every entry. -/
theorem mem_views : x ∈ s.domains ++ s.suffixes ↔ x ∈ s := by
  have hdomains : x ∈ s.domains ↔ x ∈ s.entries ∧ isSuffix x = false := by
    rw [domains, sorted, List.mem_mergeSort, List.mem_filter, Bool.not_eq_true']
  have hsuffixes : x ∈ s.suffixes ↔ x ∈ s.entries ∧ isSuffix x = true := by
    rw [suffixes, sorted, List.mem_mergeSort, List.mem_filter]
  rw [List.mem_append, hdomains, hsuffixes, ← and_or_left]
  exact and_iff_left (Bool.eq_false_or_eq_true _).symm

end RuleSet

namespace Sections

variable {s : Sections} {kind kind' : Kind} {e f : String}

/-! ## The sections -/

theorem mem_getD_pushNew? {es : List String} :
    f ∈ (pushNew? es e).getD es ↔ f ∈ es ∨ f = e := by
  unfold pushNew?
  split
  · rename_i he
    rw [Option.getD_none]
    refine ⟨Or.inl, ?_⟩
    rintro (h | rfl)
    · exact h
    · exact he
  · rw [Option.getD_some, List.mem_append, List.mem_singleton]

theorem rules_setRules {es : List String} :
    (s.setRules kind es).rules kind' = if kind' = kind then es else s.rules kind' := by
  cases kind <;> cases kind' <;> rfl

theorem mem_getD_add? :
    f ∈ ((s.add? kind e).getD s).rules kind' ↔
      f ∈ s.rules kind' ∨ (kind' = kind ∧ f = kind.form e) := by
  have hlist : ((s.add? kind e).getD s).rules kind' =
      if kind' = kind then (pushNew? (s.rules kind) (kind.form e)).getD (s.rules kind)
      else s.rules kind' := by
    rw [add?]
    cases pushNew? (s.rules kind) (kind.form e) with
    | none => split <;> simp_all
    | some es => exact rules_setRules
  rw [hlist]
  split
  · rename_i hk
    rw [mem_getD_pushNew?, hk]
    simp
  · rename_i hk
    simp [hk]

theorem setRules_rules : s.setRules kind (s.rules kind) = s := by
  cases kind <;> rfl

theorem filter_ne_of_not_mem {es : List String} (h : f ∉ es) : es.filter (· ≠ f) = es :=
  List.filter_eq_self.mpr fun _ hg => decide_eq_true (ne_of_mem_of_not_mem hg h)

/-- A list gets shorter exactly if it holds the rule. -/
theorem takeOut_shorter_iff : (s.takeOut kind e).1 = true ↔ kind.form e ∈ s.rules kind := by
  unfold takeOut
  rw [decide_eq_true_iff, Ne, List.length_filter_eq_length_iff]
  simp

/-- Otherwise nothing changes. -/
theorem takeOut_of_not_mem (h : kind.form e ∉ s.rules kind) : s.takeOut kind e = (false, s) := by
  refine Prod.ext (Bool.eq_false_iff.mpr fun hshorter => h (takeOut_shorter_iff.mp hshorter)) ?_
  rw [takeOut, filter_ne_of_not_mem h, setRules_rules]

theorem remove?_eq_some_iff {s' : Sections} : s.remove? kind e = some s' ↔
    kind.form e ∈ s.rules kind ∧
      s.setRules kind ((s.rules kind).filter (· ≠ kind.form e)) = s' := by
  rw [← takeOut_shorter_iff]
  unfold remove?
  dsimp only
  split
  · rename_i hshorter
    rw [Option.some.injEq]
    exact (and_iff_right hshorter).symm
  · rename_i hsame
    exact iff_of_false (by simp) fun h => hsame h.1

/-- The sections without a rule are those in which its list was filtered, listed or not. -/
theorem getD_remove? : (s.remove? kind e).getD s = (s.takeOut kind e).2 := by
  unfold remove?
  dsimp only
  split
  · rfl
  · rename_i hsame
    rw [takeOut_of_not_mem fun h => hsame (takeOut_shorter_iff.mpr h)]
    rfl

theorem mem_getD_remove? :
    f ∈ ((s.remove? kind e).getD s).rules kind' ↔
      f ∈ s.rules kind' ∧ ¬(kind' = kind ∧ f = kind.form e) := by
  rw [getD_remove?, takeOut, rules_setRules]
  split
  · rename_i hk
    simp [hk]
  · rename_i hk
    simp [hk]

theorem mem_foldl_pushNew? {es entries : List String} :
    f ∈ entries.foldl (fun es e => (pushNew? es (kind.form e)).getD es) es ↔
      f ∈ es ∨ ∃ e ∈ entries, f = kind.form e := by
  induction entries generalizing es with
  | nil => simp
  | cons e entries ih =>
    rw [List.foldl_cons, ih, mem_getD_pushNew?, or_assoc]
    simp only [List.mem_cons, exists_eq_or_imp]

/-- The list that settings start with. -/
theorem mem_seed {entries : List String} :
    f ∈ seed kind entries ↔ ∃ e ∈ entries, f = kind.form e := by
  rw [seed, mem_foldl_pushNew?]
  simp

end Sections

/-- The live rules made from the lists of some sections. -/
theorem RuleSet.mem_ofRules {sections : Sections} {x : String} :
    x ∈ RuleSet.ofRules sections.domains sections.suffixes ↔
      ∃ kind, ∃ e ∈ sections.rules kind, x = kind.liveForm e ∧ x ≠ kind.blank := by
  have hempty : x ∉ RuleSet.empty := List.not_mem_nil
  have hdomains := mem_foldl_add? (x := x) .empty .domain sections.domains
  have hsuffixes := mem_foldl_add? (x := x)
    (sections.domains.foldl (fun s e => (s.add? .domain e).getD s) .empty) .suffix sections.suffixes
  rw [hdomains, or_iff_left hempty] at hsuffixes
  refine hsuffixes.trans ⟨?_, ?_⟩
  · rintro (h | h)
    · exact ⟨.suffix, h⟩
    · exact ⟨.domain, h⟩
  · rintro ⟨_ | _, h⟩
    · exact Or.inr h
    · exact Or.inl h

end DnsGate.Rules
