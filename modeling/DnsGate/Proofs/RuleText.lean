import DnsGate.Proofs.PlainText
import DnsGate.Rules.Form
import DnsGate.Rules.Request

/-!
What is known of the text of rule entries: entries of a request are trimmed and stand on one line, a
trimmed line is read back as it is, and a form that a second pass of `nameForm` leaves alone is both
trimmed and bare.
-/

namespace DnsGate.Rules

open Text (trim trimChars)

/-! ## Entries of a request -/

theorem trim_of_mem_entriesOf {body e : String} (h : e ∈ entriesOf body) : trim e = e := by
  obtain ⟨line, -, rfl⟩ := List.mem_map.mp (List.mem_of_mem_filter h)
  exact Text.trim_trim line

theorem newline_of_mem_entriesOf {body e : String} (h : e ∈ entriesOf body) : '\n' ∉ e.toList := by
  obtain ⟨line, hline, rfl⟩ := List.mem_map.mp (List.mem_of_mem_filter h)
  obtain ⟨cs, hcs, rfl⟩ := List.mem_map.mp hline
  intro hmem
  rw [Text.toList_trim, String.toList_ofList] at hmem
  have hline := (Text.trimChars_sublist cs).subset hmem
  exact Text.newline_not_mem_lineChars List.not_mem_nil hcs hline

/-- A trimmed line is the only entry of itself. -/
theorem entriesOf_self {e : String} (ht : trim e = e) (hn : '\n' ∉ e.toList) (hne : e ≠ "") :
    entriesOf e = [e] := by
  have hcs : e.toList ≠ [] := by rwa [ne_eq, String.toList_eq_nil_iff]
  unfold entriesOf Text.lines
  rw [Text.lineChars_eq_singleton hn (by simpa using hcs)]
  simp [ht, hne]

/-! ## Forms -/

theorem bareChars_length_le (cs : List Char) : (bareChars cs).length ≤ cs.length := by
  rw [bareChars, List.length_map]
  exact (Text.dropLastOne_sublist '.' cs).length_le

theorem bareChars_cons_cons (c d : Char) (cs : List Char) :
    ∃ ds, bareChars (c :: d :: cs) = c.toLower :: ds := by
  unfold bareChars Text.dropLastOne
  split
  · exact ⟨_, by rw [List.dropLast_cons_cons, List.map_cons]⟩
  · exact ⟨_, List.map_cons⟩

/-- A trimmed entry is made bare as it is stored. -/
theorem nameForm_of_trim {e : String} (h : trim e = e) : nameForm e = bare e := by
  rw [nameForm, h]

theorem trim_of_nameForm {f : String} (h : nameForm f = f) : trim f = f := by
  rw [← String.toList_inj, toList_nameForm] at h
  rw [← String.toList_inj, Text.toList_trim]
  have hlen := bareChars_length_le (trimChars f.toList)
  rw [h] at hlen
  exact (Text.trimChars_sublist f.toList).eq_of_length_le hlen

theorem bare_of_nameForm {f : String} (h : nameForm f = f) : bare f = f := by
  rw [← nameForm_of_trim (trim_of_nameForm h), h]

theorem newline_not_mem_nameForm {e : String} (h : '\n' ∉ e.toList) :
    '\n' ∉ (nameForm e).toList := by
  rw [toList_nameForm, bareChars, List.mem_map]
  rintro ⟨c, hc, hlow⟩
  rw [(Text.toLower_eq_iff rfl).mp hlow] at hc
  exact h ((Text.trimChars_sublist _).subset ((Text.dropLastOne_sublist _ _).subset hc))

theorem suffixForm_ne_empty (e : String) : suffixForm e ≠ "" := by
  rw [ne_eq, ← String.toList_eq_nil_iff, toList_suffixForm]
  unfold withDot
  split
  · exact List.cons_ne_nil _ _
  · exact List.cons_ne_nil _ _

/-- A suffix that a second pass leaves alone is left alone as a name, too: the dot at its start is
its own. -/
theorem nameForm_of_suffixForm {f : String} (h : suffixForm f = f) (hdot : f ≠ ".") :
    nameForm f = f := by
  rw [← String.toList_inj, toList_suffixForm] at h
  rw [← String.toList_inj, toList_nameForm]
  rw [← String.toList_inj.ne] at hdot
  generalize f.toList = cs at h hdot ⊢
  by_contra hne
  -- otherwise the dot at the start comes from the second pass, which took a dot at the end
  have hcs : cs = '.' :: bareChars (trimChars cs) := by
    unfold withDot at h
    split at h
    · rename_i hn
      exact absurd (hn.trans h) hne
    · exact h.symm
  obtain ⟨ds, hds⟩ := Text.trimChars_cons (c := '.') (by decide) (bareChars (trimChars cs))
  rw [← hcs] at hds
  cases ds with
  | nil =>
    rw [hds] at hcs
    exact hdot hcs
  | cons d ds =>
    obtain ⟨es, hes⟩ := bareChars_cons_cons '.' d ds
    rw [hds, hes] at h hne
    exact hne h

end DnsGate.Rules
