import Mathlib
import DnsGate.Proofs.RuleAgreement

/-!
The order of the entries in a request to add rules.  Entries may collide with each other and with
rules that are there, so which of them is told to exist depends on the order; what comes of them all
does not.  Additions bring in the forms that the live rules neither refuse nor have, each once
(`fresh`): these are what the live rules and the list of the kind gain, and their number is what is
counted (`editRules_added`).  Main statement: two bodies with the same entries in any order leave
the same rules behind, have reports of the same size and are saved alike (`additions_unordered`).
-/

namespace DnsGate.Admin

open Rules (Kind RuleSet entriesOf)

variable {kind : Kind} {rules rules' : RuleSet} {e f : String} {es es' : List String}

/-! ## Fresh forms -/

/-- The forms of entries that the live rules do not refuse and do not have. -/
def fresh (kind : Kind) (rules : RuleSet) (es : List String) : Finset String :=
  (es.map kind.form).toFinset.filter fun f => f ≠ kind.blank ∧ f ∉ rules

theorem mem_fresh :
    f ∈ fresh kind rules es ↔ (∃ e ∈ es, kind.form e = f) ∧ f ≠ kind.blank ∧ f ∉ rules := by
  rw [fresh, Finset.mem_filter, List.mem_toFinset, List.mem_map]

theorem fresh_nil : fresh kind rules [] = ∅ := rfl

theorem fresh_perm (h : es.Perm es') : fresh kind rules es = fresh kind rules es' := by
  rw [fresh, fresh, List.toFinset_eq_of_perm _ _ (h.map kind.form)]

/-- An entry that the live rules do not take brings in nothing. -/
theorem fresh_cons_of_none (ht : Text.trim e = e) (h : rules.add? kind e = none) :
    fresh kind rules (e :: es) = fresh kind rules es := by
  ext f
  rw [mem_fresh, mem_fresh, List.exists_mem_cons_iff]
  refine and_congr_left fun hf => or_iff_right ?_
  rintro rfl
  rw [RuleSet.add?_eq_none_iff, Rules.liveForm_of_trim ht] at h
  rcases h with hblank | hmem
  · exact hf.1 hblank
  · exact hf.2 hmem

/-- An entry that they take brings in its form, which is no longer fresh for the entries after
it. -/
theorem fresh_cons_of_some (es : List String) (ht : Text.trim e = e)
    (h : rules.add? kind e = some rules') :
    fresh kind rules (e :: es) = insert (kind.form e) (fresh kind rules' es) ∧
      kind.form e ∉ fresh kind rules' es := by
  have hnew : kind.form e ≠ kind.blank ∧ kind.form e ∉ rules := by
    rw [← not_or, ← Rules.liveForm_of_trim ht, ← RuleSet.add?_eq_none_iff, h]
    exact Option.some_ne_none rules'
  have hmem : ∀ f, f ∈ rules' ↔ f = kind.form e ∨ f ∈ rules := by
    intro f
    rw [RuleSet.mem_of_add? h, Rules.liveForm_of_trim ht]
  constructor
  · ext f
    rw [Finset.mem_insert, mem_fresh, mem_fresh, List.exists_mem_cons_iff, hmem]
    by_cases hf : f = kind.form e
    · simp [hf, hnew]
    · simp [hf, Ne.symm hf]
  · rw [mem_fresh, hmem]
    rintro ⟨-, -, hnot⟩
    exact hnot (Or.inl rfl)

/-! ## What additions come to -/

/-- Additions have brought in the fresh forms of entries and counted them. -/
structure Added (kind : Kind) (es : List String) (before after : Report × State) : Prop where
  live : ∀ f, f ∈ after.2.live.rules ↔
    f ∈ before.2.live.rules ∨ f ∈ fresh kind before.2.live.rules es
  listed : ∀ f, f ∈ after.2.sections.rules kind ↔
    f ∈ before.2.sections.rules kind ∨ f ∈ fresh kind before.2.live.rules es
  counted : after.1.changed = before.1.changed + (fresh kind before.2.live.rules es).card

theorem added_nil (before : Report × State) : Added kind [] before before := by
  constructor
  · intro f
    simp [fresh_nil]
  · intro f
    simp [fresh_nil]
  · simp [fresh_nil]

/-- One entry, then the others. -/
theorem Added.cons {r : Report} {s : State} {after : Report × State} (ht : Text.trim e = e)
    (h : Added kind es (editEntry .add kind (r, s) e) after) :
    Added kind (e :: es) (r, s) after := by
  obtain ⟨hlive, hlisted, hcounted⟩ := h
  cases hadd : editLive? .add kind e s.live.rules with
  | none =>
    rw [editEntry_skipped hadd] at hlive hlisted hcounted
    rw [← fresh_cons_of_none ht hadd] at hlive hlisted hcounted
    exact ⟨hlive, hlisted, hcounted⟩
  | some rules' =>
    rw [editEntry_counted hadd] at hlive hlisted hcounted
    obtain ⟨hfresh, hnot⟩ := fresh_cons_of_some es ht hadd
    constructor
    · intro f
      rw [hlive, hfresh, RuleSet.mem_of_add? hadd, Rules.liveForm_of_trim ht, Finset.mem_insert]
      exact or_assoc.trans or_left_comm
    · intro f
      rw [hlisted, hfresh, Finset.mem_insert]
      show f ∈ ((s.sections.add? kind e).getD s.sections).rules kind ∨ _ ↔ _
      rw [Rules.Sections.mem_getD_add?, and_iff_right rfl, or_assoc]
    · rw [hcounted, hfresh, Finset.card_insert_of_notMem hnot]
      show r.changed + 1 + (fresh kind rules' es).card =
        r.changed + ((fresh kind rules' es).card + 1)
      omega

theorem foldl_editEntry_added (ht : ∀ e ∈ es, Text.trim e = e) (before : Report × State) :
    Added kind es before (es.foldl (editEntry .add kind) before) := by
  induction es generalizing before with
  | nil => exact added_nil before
  | cons e es ih =>
    obtain ⟨hte, htes⟩ := List.forall_mem_cons.mp ht
    exact Added.cons hte (ih htes _)

theorem editRules_added (ht : ∀ e ∈ es, Text.trim e = e) (s : State) :
    Added kind es ({}, s) (editRules .add kind es s) :=
  foldl_editEntry_added ht _

/-! ## What any edits come to -/

section Edits

variable (edit : Edit) (kind : Kind) (es : List String)

theorem editEntry_length (r : Report) (s : State) (e : String) :
    (editEntry edit kind (r, s) e).1.changed + (editEntry edit kind (r, s) e).1.skipped.length =
      r.changed + r.skipped.length + 1 := by
  cases h : editLive? edit kind e s.live.rules with
  | none =>
    rw [editEntry_skipped h, List.length_append, List.length_singleton]
    exact (Nat.add_assoc _ _ _).symm
  | some rules =>
    rw [editEntry_counted h]
    exact Nat.add_right_comm _ _ _

theorem foldl_editEntry_length (before : Report × State) :
    (es.foldl (editEntry edit kind) before).1.changed +
        (es.foldl (editEntry edit kind) before).1.skipped.length =
      before.1.changed + before.1.skipped.length + es.length := by
  induction es generalizing before with
  | nil => rfl
  | cons e es ih =>
    rw [List.foldl_cons, ih, editEntry_length, List.length_cons]
    omega

/-- Every entry is counted or skipped. -/
theorem editRules_length (s : State) :
    (editRules edit kind es s).1.changed + (editRules edit kind es s).1.skipped.length =
      es.length := by
  exact (foldl_editEntry_length edit kind es ({}, s)).trans (Nat.zero_add _)

variable {kind} in
theorem editSections?_others {sections sections' : Rules.Sections} {k : Kind} (hk : k ≠ kind)
    (h : editSections? edit kind e sections = some sections') :
    sections'.rules k = sections.rules k := by
  cases edit with
  | add =>
    obtain ⟨list, -, rfl⟩ := Option.map_eq_some_iff.mp h
    rw [Rules.Sections.rules_setRules, if_neg hk]
  | remove =>
    have h : sections.remove? kind e = some sections' := h
    obtain ⟨-, rfl⟩ := Rules.Sections.remove?_eq_some_iff.mp h
    rw [Rules.Sections.rules_setRules, if_neg hk]

variable {kind} in
/-- The lists of other kinds stay as they are. -/
theorem editRules_others {k : Kind} (hk : k ≠ kind) (s : State) :
    (editRules edit kind es s).2.sections.rules k = s.sections.rules k := by
  refine editRules_keeps edit kind es (·.sections.rules k) (fun r s e => ?_) s
  cases h : editLive? edit kind e s.live.rules with
  | none => rw [editEntry_skipped h]
  | some rules =>
    rw [editEntry_counted h]
    cases hsections : editSections? edit kind e s.sections with
    | none => rfl
    | some sections => exact editSections?_others edit hk hsections

/-- A request saves the sections once if it has changed something, and not at all otherwise. -/
theorem execute_edit {σ E : Type} (save : Rules.Sections → σ → Except E Unit × σ) (s : State)
    (store : σ) :
    (Request.edit edit kind es).execute save s store =
      (.edited (editRules edit kind es s).1, (editRules edit kind es s).2,
        if 0 < (editRules edit kind es s).1.changed then
          (save (editRules edit kind es s).2.sections store).2
        else store) := by
  simp only [Request.execute, Request.change, Request.reply]
  by_cases hchanged : 0 < (editRules edit kind es s).1.changed
  · simp [hchanged]
  · simp [hchanged]

end Edits

/-! ## Requests -/

/-- The order of the lines in a request to add rules does not matter.  Whatever the state, two
bodies whose entries are the same up to their order leave the same live rules and the same rules in
the list of the kind, and no other list is touched; as many entries are counted, as many skipped,
and these are all; and the sections are saved once in both cases, if anything is counted, or in
neither. -/
theorem additions_unordered {σ E : Type} (save : Rules.Sections → σ → Except E Unit × σ)
    (s : State) (store : σ) (kind : Kind) {body body' : String}
    (h : (entriesOf body).Perm (entriesOf body')) :
    ∃ report report' after after' stored stored',
      (Request.edit .add kind (entriesOf body)).execute save s store =
        (.edited report, after, stored) ∧
      (Request.edit .add kind (entriesOf body')).execute save s store =
        (.edited report', after', stored') ∧
      (∀ f, f ∈ after.live.rules ↔ f ∈ after'.live.rules) ∧
      (∀ f, f ∈ after.sections.rules kind ↔ f ∈ after'.sections.rules kind) ∧
      (∀ st ∈ [after, after'], st.sections.sources = s.sections.sources ∧
        ∀ k ≠ kind, st.sections.rules k = s.sections.rules k) ∧
      report.changed = report'.changed ∧
      report.skipped.length = report'.skipped.length ∧
      report.changed + report.skipped.length = (entriesOf body).length ∧
      stored = (if 0 < report.changed then (save after.sections store).2 else store) ∧
      stored' = (if 0 < report.changed then (save after'.sections store).2 else store) := by
  have hadded : Added kind (entriesOf body) ({}, s) (editRules .add kind (entriesOf body) s) :=
    editRules_added (fun e => Rules.trim_of_mem_entriesOf) s
  have hadded' : Added kind (entriesOf body') ({}, s) (editRules .add kind (entriesOf body') s) :=
    editRules_added (fun e => Rules.trim_of_mem_entriesOf) s
  have hlength := editRules_length .add kind (entriesOf body) s
  have hlength' := editRules_length .add kind (entriesOf body') s
  have hchanged : (editRules .add kind (entriesOf body) s).1.changed =
      (editRules .add kind (entriesOf body') s).1.changed := by
    rw [hadded.counted, hadded'.counted, fresh_perm h]
  have hothers : ∀ es, (editRules .add kind es s).2.sections.sources = s.sections.sources ∧
      ∀ k ≠ kind, (editRules .add kind es s).2.sections.rules k = s.sections.rules k := fun es =>
    ⟨editRules_sources .add kind es s, fun k hk => editRules_others .add es hk s⟩
  refine ⟨_, _, _, _, _, _, execute_edit .add kind (entriesOf body) save s store,
    execute_edit .add kind (entriesOf body') save s store, ?_, ?_, ?_, hchanged, ?_, hlength, rfl,
    ?_⟩
  · intro f
    rw [hadded.live, hadded'.live, fresh_perm h]
  · intro f
    rw [hadded.listed, hadded'.listed, fresh_perm h]
  · intro st hst
    rcases List.mem_pair.mp hst with rfl | rfl
    · exact hothers _
    · exact hothers _
  · have hperm := h.length_eq
    omega
  · rw [hchanged]

/-- A store that remembers what is saved. -/
def remember (sections : Rules.Sections) (saved : List Rules.Sections) :
    Except Empty Unit × List Rules.Sections :=
  (.ok (), saved ++ [sections])

/-- Two of three lines have one form, and the third is a rule that is there. -/
theorem colliding_lines_unordered :
    let s : State := ⟨⟨.ofRules ["a.test"] [], none⟩, ⟨["a.test"], [".c.test"], []⟩⟩
    let es := entriesOf "B.test\na.test\nb.test.\n"
    let es' := entriesOf "a.test\n\n b.test.\r\nB.test"
    es.Perm es' ∧
      ∃ report report' after after' stored stored',
        (Request.edit .add .domain es).execute remember s [] = (.edited report, after, stored) ∧
        (Request.edit .add .domain es').execute remember s [] =
          (.edited report', after', stored') ∧
        (∀ f, f ∈ after.live.rules ↔ f ∈ after'.live.rules) ∧
        (∀ f, f ∈ after.sections.domains ↔ f ∈ after'.sections.domains) ∧
        after.sections.suffixes = [".c.test"] ∧ after'.sections.suffixes = [".c.test"] ∧
        report.changed = report'.changed ∧
        report.skipped.length = report'.skipped.length ∧
        report.changed + report.skipped.length = 3 ∧
        stored = (if 0 < report.changed then [after.sections] else []) ∧
        stored' = (if 0 < report.changed then [after'.sections] else []) := by
  intro s es es'
  have hperm : es.Perm es' := by decide
  obtain ⟨report, report', after, after', stored, stored', hrun, hrun', hlive, hlisted, hothers,
    hchanged, hskipped, hlength, hstored, hstored'⟩ :=
    additions_unordered remember s [] .domain hperm
  obtain ⟨-, hafter⟩ := hothers after (by simp)
  obtain ⟨-, hafter'⟩ := hothers after' (by simp)
  exact ⟨hperm, report, report', after, after', stored, stored', hrun, hrun', hlive, hlisted,
    hafter .suffix (by decide), hafter' .suffix (by decide), hchanged, hskipped, hlength, hstored,
    hstored'⟩

end DnsGate.Admin
