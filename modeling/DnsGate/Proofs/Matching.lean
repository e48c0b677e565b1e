import DnsGate.Proofs.Listed

/-!
What the entries of a rule set say of a name.  Matching walks along the name and asks the set about
its tails; seen from the entries, a name is covered if it is an entry in its bare form or has a
suffix entry of two labels or more at its end, and it is listed if it is covered or lies below an
entry of two labels or more (`matching_by_entries`).  So a listed name of two labels or more stays
listed whatever labels are put in front of it.
-/

namespace DnsGate.Rules

/-- A name with labels put in front of it. -/
def subname (labels : List String) (name : String) : String :=
  labels.foldr (fun label rest => label ++ "." ++ rest) name

namespace RuleSet

variable {s : RuleSet} {name : String}

/-! ## Verdicts by entries -/

theorem containsExact_iff : s.containsExact name = true ↔ bare name ∈ s := decide_eq_true_iff

theorem covers_iff : s.covers name = true ↔
    bare name ∈ s ∨ ∃ e ∈ s, ∃ rest, e.toList = '.' :: rest ∧ '.' ∈ rest ∧
      e.toList <:+ '.' :: (bare name).toList := by
  rw [covers, Bool.or_eq_true, containsExact_iff, matchesSuffix_iff, toList_bare]

theorem lists_iff_covers : s.lists name = true ↔ s.covers name = true ∨
    ∃ e ∈ s, '.' ∈ e.toList ∧ '.' :: e.toList <:+ (bare name).toList := by
  have hparent : s.containsParent (bareChars name.toList) = true ↔
      ∃ e ∈ s, '.' ∈ e.toList ∧ '.' :: e.toList <:+ (bare name).toList := by
    rw [containsParent_iff, toList_bare]
    simp only [List.IsSuffix, eq_comm]
  rw [lists, covers, Bool.or_right_comm, Bool.or_eq_true, hparent]

/-- Sets with the same entries list the same names. -/
theorem lists_congr {s' : RuleSet} (h : ∀ e, e ∈ s ↔ e ∈ s') (name : String) :
    s.lists name = s'.lists name := by
  unfold lists containsExact containsParent matchesSuffix
  simp only [h]

/-! ## Labels in front -/

theorem toList_bare_label (label : String) (h : name ≠ "") :
    (bare (label ++ "." ++ name)).toList =
      label.toList.map Char.toLower ++ '.' :: (bare name).toList := by
  have hname : name.toList ≠ [] := by rwa [ne_eq, String.toList_eq_nil_iff]
  have hchars : (label ++ "." ++ name).toList = (label.toList ++ ['.']) ++ name.toList := by simp
  have hdot : Char.toLower '.' = '.' := by decide
  rw [toList_bare, toList_bare, hchars, bareChars, Text.dropLastOne_append _ _ hname]
  simp [bareChars, hdot]

theorem dot_mem_bare_label (label : String) (hdot : '.' ∈ (bare name).toList) :
    '.' ∈ (bare (label ++ "." ++ name)).toList := by
  have hne : name ≠ "" := by
    rintro rfl
    exact absurd hdot (by decide)
  rw [toList_bare_label label hne]
  simp

/-- What lists a name of two labels or more lists it with one more label in front, too: its own
entry is then that of a parent, and what ended the name still ends it. -/
theorem lists_label (label : String) (hdot : '.' ∈ (bare name).toList) (h : s.lists name = true) :
    s.lists (label ++ "." ++ name) = true := by
  have hne : name ≠ "" := by
    rintro rfl
    exact absurd hdot (by decide)
  have hend : '.' :: (bare name).toList <:+ (bare (label ++ "." ++ name)).toList := by
    rw [toList_bare_label label hne]
    exact List.suffix_append _ _
  rw [lists_iff_covers, covers_iff] at h ⊢
  rcases h with (hown | ⟨e, he, rest, hrest, hlabels, hsuffix⟩) | ⟨e, he, hlabels, hparent⟩
  · exact Or.inr ⟨bare name, hown, hdot, hend⟩
  · exact Or.inl (Or.inr ⟨e, he, rest, hrest, hlabels,
      (hsuffix.trans hend).trans (List.suffix_cons _ _)⟩)
  · exact Or.inr ⟨e, he, hlabels, (hparent.trans (List.suffix_cons _ _)).trans hend⟩

theorem lists_subname (labels : List String) (hdot : '.' ∈ (bare name).toList)
    (h : s.lists name = true) :
    '.' ∈ (bare (subname labels name)).toList ∧ s.lists (subname labels name) = true := by
  induction labels with
  | nil => exact ⟨hdot, h⟩
  | cons label labels ih => exact ⟨dot_mem_bare_label label ih.1, lists_label label ih.1 ih.2⟩

/-! ## Matching -/

/-- A rule set covers and lists names as its entries say, and lists what lies below a listed name of
two labels or more. -/
theorem matching_by_entries (s : RuleSet) (name : String) :
    (s.covers name = true ↔ bare name ∈ s ∨ ∃ e ∈ s, ∃ rest, e.toList = '.' :: rest ∧ '.' ∈ rest ∧
      e.toList <:+ '.' :: (bare name).toList) ∧
    (s.lists name = true ↔ s.covers name = true ∨
      ∃ e ∈ s, '.' ∈ e.toList ∧ '.' :: e.toList <:+ (bare name).toList) ∧
    ('.' ∈ (bare name).toList → s.lists name = true →
      ∀ labels, s.lists (subname labels name) = true) :=
  ⟨covers_iff, lists_iff_covers, fun hdot h labels => (lists_subname labels hdot h).2⟩

theorem ads_listed_below :
    '.' ∈ (bare "Ads.test.").toList ∧ (ofRules ["ads.test"] []).lists "Ads.test." = true ∧
      (ofRules ["ads.test"] []).lists (subname ["x", "y"] "Ads.test.") = true := by
  have hdot : '.' ∈ (bare "Ads.test.").toList := by decide
  have hlisted : (ofRules ["ads.test"] []).lists "Ads.test." = true := by decide
  exact ⟨hdot, hlisted, (matching_by_entries _ _).2.2 hdot hlisted ["x", "y"]⟩

/-- A name of one label is listed without what lies below it. -/
example : (ofRules ["test"] []).lists "test" = true ∧
    (ofRules ["test"] []).lists (subname ["ads"] "test") = false := by decide

end RuleSet

end DnsGate.Rules
