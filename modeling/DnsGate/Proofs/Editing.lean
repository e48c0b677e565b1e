import DnsGate.Admin.Request
import DnsGate.Proofs.RuleStores

/-!
What edits of rules do, entry by entry: an entry is skipped and changes nothing, or it is counted
and changes the live rules and the sections.  So an edit in which nothing is counted leaves
everything as it is (`editRules_unchanged`), and no edit touches the blocklist
(`editRules_blocklist`) or the sources in the sections (`editRules_sources`).
-/

namespace DnsGate.Admin

section Entries

variable {edit : Edit} {kind : Rules.Kind} {r : Report} {s : State} {e : String}

theorem editEntry_skipped (h : editLive? edit kind e s.live.rules = none) :
    editEntry edit kind (r, s) e =
      ({ r with skipped := r.skipped ++ [⟨edit, kind, e⟩] }, s) := by
  simp only [editEntry, h]

theorem editEntry_counted {rules : Rules.RuleSet}
    (h : editLive? edit kind e s.live.rules = some rules) :
    editEntry edit kind (r, s) e =
      ({ r with changed := r.changed + 1 },
        { live := { s.live with rules }
          sections := (editSections? edit kind e s.sections).getD s.sections }) := by
  simp only [editEntry, h]

theorem editEntry_blocklist :
    (editEntry edit kind (r, s) e).2.live.blocklist = s.live.blocklist := by
  cases h : editLive? edit kind e s.live.rules with
  | none => rw [editEntry_skipped h]
  | some rules => rw [editEntry_counted h]

theorem editSections?_sources {c c' : Rules.Sections} (h : editSections? edit kind e c = some c') :
    c'.sources = c.sources := by
  cases edit with
  | add =>
    obtain ⟨es, -, rfl⟩ := Option.map_eq_some_iff.mp h
    cases kind <;> rfl
  | remove =>
    have h : c.remove? kind e = some c' := h
    obtain ⟨-, rfl⟩ := Rules.Sections.remove?_eq_some_iff.mp h
    cases kind <;> rfl

theorem editEntry_sources : (editEntry edit kind (r, s) e).2.sections.sources = s.sections.sources := by
  cases h : editLive? edit kind e s.live.rules with
  | none => rw [editEntry_skipped h]
  | some rules =>
    rw [editEntry_counted h]
    cases hsections : editSections? edit kind e s.sections with
    | none => rfl
    | some c => exact editSections?_sources hsections

theorem editEntry_unchanged :
    (editEntry edit kind (r, s) e).1.changed = r.changed ∧ (editEntry edit kind (r, s) e).2 = s ∨
      r.changed < (editEntry edit kind (r, s) e).1.changed := by
  cases h : editLive? edit kind e s.live.rules with
  | none =>
    rw [editEntry_skipped h]
    exact Or.inl ⟨rfl, rfl⟩
  | some rules =>
    rw [editEntry_counted h]
    exact Or.inr (Nat.lt_succ_self _)

end Entries

section Batches

variable (edit : Edit) (kind : Rules.Kind) (es : List String)

theorem foldl_editEntry_unchanged (r : Report) (s : State) :
    (es.foldl (editEntry edit kind) (r, s)).1.changed = r.changed ∧
        (es.foldl (editEntry edit kind) (r, s)).2 = s ∨
      r.changed < (es.foldl (editEntry edit kind) (r, s)).1.changed := by
  induction es generalizing r s with
  | nil => exact Or.inl ⟨rfl, rfl⟩
  | cons e es ih =>
    rw [List.foldl_cons]
    rcases hstep : editEntry edit kind (r, s) e with ⟨r₁, s₁⟩
    have hentry : (editEntry edit kind (r, s) e).1.changed = r.changed ∧
        (editEntry edit kind (r, s) e).2 = s ∨ r.changed < (editEntry edit kind (r, s) e).1.changed :=
      editEntry_unchanged
    rw [hstep] at hentry
    rcases hentry with ⟨hr, rfl⟩ | hlt
    · rw [← hr]
      exact ih r₁ s₁
    · rcases ih r₁ s₁ with ⟨hr, -⟩ | hmore
      · exact Or.inr (by rw [hr]; exact hlt)
      · exact Or.inr (Nat.lt_trans hlt hmore)

/-- Edits of which none is counted change nothing. -/
theorem editRules_unchanged {s : State} (h : (editRules edit kind es s).1.changed = 0) :
    (editRules edit kind es s).2 = s := by
  rcases foldl_editEntry_unchanged edit kind es {} s with ⟨-, hs⟩ | hlt
  · exact hs
  · rw [show (es.foldl (editEntry edit kind) ({}, s)).1.changed = 0 from h] at hlt
    exact absurd hlt (Nat.lt_irrefl 0)

/-- What no edit of an entry touches, no edit of rules does. -/
theorem editRules_keeps {α : Type} (f : State → α)
    (h : ∀ r s e, f (editEntry edit kind (r, s) e).2 = f s) (s : State) :
    f (editRules edit kind es s).2 = f s := by
  have hfold (r : Report) : f (es.foldl (editEntry edit kind) (r, s)).2 = f s := by
    induction es generalizing r s with
    | nil => rfl
    | cons e es ih => rw [List.foldl_cons, ← Prod.eta (editEntry edit kind (r, s) e), ih, h]
  exact hfold {}

theorem editRules_blocklist (s : State) :
    (editRules edit kind es s).2.live.blocklist = s.live.blocklist :=
  editRules_keeps edit kind es (·.live.blocklist) (fun _ _ _ => editEntry_blocklist) s

theorem editRules_sources (s : State) :
    (editRules edit kind es s).2.sections.sources = s.sections.sources :=
  editRules_keeps edit kind es (·.sections.sources) (fun _ _ _ => editEntry_sources) s

end Batches

end DnsGate.Admin
