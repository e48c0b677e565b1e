import Mathlib
import DnsGate.Text.Blank
import DnsGate.Text.Cut
import DnsGate.Text.Digits
import DnsGate.Text.Lines

/-!
What is known of text before it is given a meaning: trimming, cutting in two, taking one character
off the end, folding case, decimal digits, and lines.
-/

namespace DnsGate.Text

/-! ## Trimming -/

theorem trimChars_eq (cs : List Char) :
    trimChars cs = (cs.dropWhile isBlank).rdropWhile isBlank := rfl

theorem trimChars_sublist (cs : List Char) : (trimChars cs).Sublist cs := by
  rw [trimChars_eq]
  exact (List.rdropWhile_prefix _ _).sublist.trans (List.dropWhile_sublist _)

/-- The blanks at the end go without the text getting a new start. -/
theorem trimChars_trimChars (cs : List Char) : trimChars (trimChars cs) = trimChars cs := by
  have hstart : (trimChars cs).dropWhile isBlank = trimChars cs := by
    rw [List.dropWhile_eq_self_iff]
    intro hlen
    have hpre : trimChars cs <+: cs.dropWhile isBlank := List.rdropWhile_prefix _ _
    rw [hpre.getElem hlen]
    exact List.dropWhile_get_zero_not _ _ _
  rw [trimChars_eq (trimChars cs), hstart, trimChars_eq, List.rdropWhile_idempotent]

theorem trim_trim (s : String) : trim (trim s) = trim s := by
  rw [← String.toList_inj, toList_trim, toList_trim, trimChars_trimChars]

/-- A text that starts with a character other than a blank starts with it once trimmed. -/
theorem trimChars_cons {c : Char} (hc : isBlank c = false) (cs : List Char) :
    ∃ ds, trimChars (c :: cs) = c :: ds := by
  have hkeep : ∀ cs, (c :: cs).dropWhile isBlank = c :: cs := by
    intro cs
    rw [List.dropWhile_cons, if_neg (by simp [hc])]
  rw [trimChars, hkeep, List.reverse_cons, List.dropWhile_append, hkeep]
  split
  · exact ⟨[], rfl⟩
  · exact ⟨_, by rw [List.reverse_append, List.reverse_singleton, List.singleton_append]⟩

theorem getLast?_trimChars (cs : List Char) :
    ∀ c ∈ (trimChars cs).getLast?, isBlank c = false := by
  intro c hc
  obtain ⟨hne, rfl⟩ := List.mem_getLast?_eq_getLast hc
  exact Bool.eq_false_of_not_eq_true (List.rdropWhile_last_not _ _ hne)

/-- Nothing is trimmed off a text that neither starts nor ends with a blank. -/
theorem trimChars_of_ends {cs : List Char} (hfirst : ∀ c ∈ cs.head?, isBlank c = false)
    (hlast : ∀ c ∈ cs.getLast?, isBlank c = false) : trimChars cs = cs := by
  have hfront : cs.dropWhile isBlank = cs := by
    cases cs with
    | nil => rfl
    | cons c cs => rw [List.dropWhile_cons, if_neg (by simp [hfirst c rfl])]
  rw [trimChars_eq, hfront, List.rdropWhile_eq_self_iff]
  intro hne
  rw [hlast _ (List.getLast?_eq_some_getLast hne)]
  exact Bool.false_ne_true

theorem trimChars_of_not_blank {cs : List Char} (h : ∀ c ∈ cs, isBlank c = false) :
    trimChars cs = cs :=
  trimChars_of_ends (fun c hc => h c (List.mem_of_mem_head? hc))
    fun c hc => h c (List.mem_of_getLast? hc)

theorem head?_trimChars (cs : List Char) : ∀ c ∈ (trimChars cs).head?, isBlank c = false := by
  intro c hc
  obtain ⟨ds, hds⟩ := List.rdropWhile_prefix isBlank (cs.dropWhile isBlank)
  have hstart := List.head?_dropWhile_not isBlank cs
  rw [← hds, ← trimChars_eq, List.head?_append, Option.mem_def.mp hc] at hstart
  exact hstart

/-! ## Fields -/

theorem cutAtBlanks_ne_nil (cs : List Char) : cutAtBlanks cs ≠ [] := by
  cases cs with
  | nil => exact List.cons_ne_nil _ _
  | cons c cs =>
    rw [cutAtBlanks]
    split
    · exact List.cons_ne_nil _ _
    · split
      · exact List.cons_ne_nil _ _
      · exact List.cons_ne_nil _ _

section Blank

variable {b : Char} (hb : isBlank b = true)

include hb

theorem cutAtBlanks_append (xs ys : List Char) :
    cutAtBlanks (xs ++ b :: ys) = cutAtBlanks xs ++ cutAtBlanks ys := by
  induction xs with
  | nil => exact if_pos hb
  | cons c xs ih =>
    rw [List.cons_append, cutAtBlanks, cutAtBlanks, ih]
    split
    · rfl
    · obtain ⟨w, ws, hcut⟩ := List.exists_cons_of_ne_nil (cutAtBlanks_ne_nil xs)
      rw [hcut]
      rfl

/-- A blank stands between fields, whatever is next to it. -/
theorem fields_append (xs ys : List Char) : fields (xs ++ b :: ys) = fields xs ++ fields ys := by
  rw [fields, cutAtBlanks_append hb, List.filter_append]
  rfl

end Blank

theorem fields_nil : fields [] = [] := rfl

/-- A character that is not blank starts a field. -/
theorem fields_cons {c : Char} (hc : isBlank c = false) (cs : List Char) :
    ∃ f fs, fields (c :: cs) = (c :: f) :: fs := by
  obtain ⟨w, ws, hcut⟩ := List.exists_cons_of_ne_nil (cutAtBlanks_ne_nil cs)
  refine ⟨w, ws.filter fun w => !w.isEmpty, ?_⟩
  rw [fields, cutAtBlanks, if_neg (by simp [hc]), hcut]
  rfl

theorem cutAtBlanks_of_not_blank {cs : List Char} (h : ∀ c ∈ cs, isBlank c = false) :
    cutAtBlanks cs = [cs] := by
  induction cs with
  | nil => rfl
  | cons c cs ih =>
    obtain ⟨hc, hcs⟩ := List.forall_mem_cons.mp h
    rw [cutAtBlanks, if_neg (by simp [hc]), ih hcs]

theorem fields_of_not_blank {cs : List Char} (hne : cs ≠ [])
    (h : ∀ c ∈ cs, isBlank c = false) : fields cs = [cs] := by
  rw [fields, cutAtBlanks_of_not_blank h]
  simp [hne]

theorem fields_dropWhile (cs : List Char) : fields (cs.dropWhile isBlank) = fields cs := by
  induction cs with
  | nil => rfl
  | cons c cs ih =>
    cases hc : isBlank c with
    | true => rw [List.dropWhile_cons_of_pos hc, ih, ← List.nil_append (c :: cs),
        fields_append hc, fields_nil, List.nil_append]
    | false => rw [List.dropWhile_cons_of_neg (by simp [hc])]

theorem fields_rdropWhile (cs : List Char) : fields (cs.rdropWhile isBlank) = fields cs := by
  induction cs using List.reverseRecOn with
  | nil => rfl
  | append_singleton cs c ih =>
    cases hc : isBlank c with
    | true => rw [List.rdropWhile_concat_pos _ _ _ hc, ih, fields_append hc, fields_nil,
        List.append_nil]
    | false => rw [List.rdropWhile_concat_neg _ _ _ (by simp [hc])]

/-- Blanks at the ends are in no field. -/
theorem fields_trimChars (cs : List Char) : fields (trimChars cs) = fields cs := by
  rw [trimChars_eq, fields_rdropWhile, fields_dropWhile]

/-! ## Cutting in two -/

/-- A text is cut where the pattern stands, if the pattern's first character does not stand
before. -/
theorem cut?_append {p : Char} {ps xs : List Char} (ys : List Char) (h : p ∉ xs) :
    cut? (p :: ps) (xs ++ (p :: ps ++ ys)) = some (xs, ys) := by
  induction xs with
  | nil =>
    have hfirst := after?_append (p :: ps) ys
    rw [List.cons_append] at hfirst
    rw [List.nil_append, List.cons_append, cut?, hfirst]
  | cons x xs ih =>
    obtain ⟨hx, hxs⟩ := not_or.mp (mt List.mem_cons.mpr h)
    rw [List.cons_append, cut?, after?, if_neg hx, ih hxs]
    rfl

/-! ## One character at the end -/

theorem dropLastOne_sublist (c : Char) (cs : List Char) : (dropLastOne c cs).Sublist cs := by
  unfold dropLastOne
  split
  · exact List.dropLast_sublist cs
  · exact List.Sublist.refl cs

theorem dropLastOne_append (c : Char) (xs : List Char) {ys : List Char} (h : ys ≠ []) :
    dropLastOne c (xs ++ ys) = xs ++ dropLastOne c ys := by
  unfold dropLastOne
  rw [List.getLast?_append_of_ne_nil _ h, List.dropLast_append_of_ne_nil h]
  split
  · rfl
  · rfl

/-! ## Letters -/

/-- Folding case gives no new characters other than letters. -/
theorem toLower_eq_iff {c d : Char} (hd : d.isAlpha = false) : c.toLower = d ↔ c = d := by
  have hfix : ∀ u : Char, u.isAlpha = false → u.toLower = u := by
    intro u hu
    apply Char.toLower_eq_of_not_isUpper
    rw [(Bool.or_eq_false_iff.mp hu).1]
    exact Bool.false_ne_true
  constructor
  · rintro rfl
    rw [Char.isAlpha_toLower_eq_isAlpha] at hd
    exact (hfix c hd).symm
  · rintro rfl
    exact hfix c hd

theorem dropLastOne_map_toLower {c : Char} (hc : c.isAlpha = false) (cs : List Char) :
    dropLastOne c (cs.map Char.toLower) = (dropLastOne c cs).map Char.toLower := by
  have hlast : (cs.map Char.toLower).getLast? = some c ↔ cs.getLast? = some c := by
    rw [List.getLast?_map]
    cases cs.getLast? with
    | none => simp
    | some d => rw [Option.map_some, Option.some.injEq, Option.some.injEq, toLower_eq_iff hc]
  unfold dropLastOne
  by_cases h : cs.getLast? = some c
  · rw [if_pos (hlast.mpr h), if_pos h, List.map_dropLast]
  · rw [if_neg (mt hlast.mp h), if_neg h]

/-! ## Decimal digits -/

theorem not_isBlank_of_isDigit {c : Char} (h : c.isDigit = true) : isBlank c = false := by
  have hrange : 0x30 ≤ c.toNat ∧ c.toNat ≤ 0x39 := by
    simpa [Char.isDigit, UInt32.le_iff_toNat_le] using h
  simp [isBlank]
  omega

theorem notMem_toDigits {c : Char} (hc : c.isDigit = false) (n : Nat) : c ∉ Nat.toDigits 10 n := by
  intro hmem
  rw [Nat.isDigit_of_mem_toDigits (by decide) (by decide) hmem] at hc
  cases hc

theorem digit?_digitChar {d : Nat} (h : d < 10) : digit? 10 (Nat.digitChar d) = some d := by
  decide +revert

theorem readDigits?_append (base acc : Nat) (cs : List Char) (c : Char) :
    readDigits? base acc (cs ++ [c]) = (readDigits? base acc cs).bind
      fun n => (digit? base c).map (n * base + ·) := by
  induction cs generalizing acc with
  | nil =>
    simp only [List.nil_append, readDigits?, Option.bind_some]
    cases digit? base c <;> rfl
  | cons d cs ih =>
    simp only [List.cons_append, readDigits?]
    cases digit? base d with
    | none => rfl
    | some v => exact ih _

theorem toDigits_induction {P : Nat → List Char → Prop}
    (one : ∀ d < 10, P d [Nat.digitChar d])
    (more : ∀ n d cs, 0 < n → d < 10 → P n cs → P (n * 10 + d) (cs ++ [Nat.digitChar d]))
    (n : Nat) : P n (Nat.toDigits 10 n) := by
  induction n using Nat.strongRecOn with
  | ind n ih =>
    by_cases h : n < 10
    · rw [Nat.toDigits_of_lt_base h]
      exact one n h
    · have hrec := more (n / 10) (n % 10) _ (by omega) (Nat.mod_lt _ (by decide))
        (ih (n / 10) (by omega))
      rw [Nat.toDigits_of_base_le (by decide) (by omega)]
      rwa [show n / 10 * 10 + n % 10 = n by omega] at hrec

theorem readDigits?_toDigits (n : Nat) :
    readDigits? 10 0 (Nat.toDigits 10 n) = some n := by
  refine toDigits_induction (P := fun n cs => readDigits? 10 0 cs = some n) ?_ ?_ n
  · intro d hd
    simp [readDigits?, digit?_digitChar hd]
  · intro n d cs _ hd ih
    rw [readDigits?_append, ih, digit?_digitChar hd]
    rfl

theorem digit?_of_mem_toDigits {n : Nat} {c : Char} (h : c ∈ Nat.toDigits 10 n) :
    (digit? 10 c).isSome := by
  refine toDigits_induction (P := fun _ cs => c ∈ cs → (digit? 10 c).isSome) ?_ ?_ n h
  · intro d hd hc
    rw [List.mem_singleton.mp hc, digit?_digitChar hd]
    rfl
  · intro n d cs _ hd ih hc
    rcases List.mem_append.mp hc with hc | hc
    · exact ih hc
    · rw [List.mem_singleton.mp hc, digit?_digitChar hd]
      rfl

theorem toDigits_ne_nil (n : Nat) : Nat.toDigits 10 n ≠ [] :=
  List.ne_nil_of_length_pos Nat.length_toDigits_pos

theorem readNat?_toDigits (n : Nat) : readNat? 10 (Nat.toDigits 10 n) = some n := by
  rw [readNat?, if_neg (by simp [toDigits_ne_nil n]), readDigits?_toDigits]

/-! ## Lines -/

theorem newline_not_mem_lineChars {cs held line : List Char} (hh : '\n' ∉ held)
    (hl : line ∈ lineChars cs held) : '\n' ∉ line := by
  induction cs generalizing held with
  | nil =>
    cases held with
    | nil => cases hl
    | cons c held =>
      obtain rfl := List.mem_singleton.mp hl
      rwa [List.mem_reverse]
  | cons c cs ih =>
    rw [lineChars] at hl
    split at hl
    · rcases List.mem_cons.mp hl with rfl | hl
      · intro hmem
        have hsub : (dropReturn held.reverse).Sublist held.reverse := by
          unfold dropReturn
          split
          · exact List.dropLast_sublist _
          · exact List.Sublist.refl _
        exact hh (List.mem_reverse.mp (hsub.subset hmem))
      · exact ih List.not_mem_nil hl
    · rename_i hc
      exact ih (by simp [hh, Ne.symm hc]) hl

/-- The characters up to a line feed are a line and its end. -/
theorem exists_ending (cs : List Char) :
    ∃ ending, cs ++ ['\n'] = dropReturn cs ++ ending ∧
      (ending = ['\n'] ∨ ending = ['\r', '\n']) := by
  unfold dropReturn
  split
  · rename_i hlast
    obtain ⟨ds, rfl⟩ := List.getLast?_eq_some_iff.mp hlast
    exact ⟨['\r', '\n'], by simp, Or.inr rfl⟩
  · exact ⟨['\n'], rfl, Or.inl rfl⟩

theorem lineChars_eq_singleton {cs held : List Char} (hn : '\n' ∉ cs)
    (hne : held.reverse ++ cs ≠ []) : lineChars cs held = [held.reverse ++ cs] := by
  induction cs generalizing held with
  | nil =>
    cases held with
    | nil => exact absurd rfl hne
    | cons c held => simp [lineChars]
  | cons c cs ih =>
    rw [List.mem_cons, not_or] at hn
    rw [lineChars, if_neg (Ne.symm hn.1), ih hn.2 (by simp)]
    simp

/-- What stands before a line feed and is without one ends a line there. -/
theorem lineChars_newline {line : List Char} (hn : '\n' ∉ line) (held cs : List Char) :
    lineChars (line ++ '\n' :: cs) held = dropReturn (held.reverse ++ line) :: lineChars cs [] := by
  induction line generalizing held with
  | nil => rw [List.nil_append, lineChars, if_pos rfl, List.append_nil]
  | cons c line ih =>
    rw [List.mem_cons, not_or] at hn
    rw [List.cons_append, lineChars, if_neg (Ne.symm hn.1), ih hn.2]
    simp

/-- A text that ends with a line feed has its lines, whatever comes after it. -/
theorem lineChars_append {cs : List Char} (h : cs = [] ∨ cs.getLast? = some '\n')
    (ds : List Char) : lineChars (cs ++ ds) [] = lineChars cs [] ++ lineChars ds [] := by
  have hfeed (xs held : List Char) :
      lineChars (xs ++ ['\n'] ++ ds) held = lineChars (xs ++ ['\n']) held ++ lineChars ds [] := by
    induction xs generalizing held with
    | nil => simp [lineChars]
    | cons x xs ih =>
      rw [List.cons_append, List.cons_append, lineChars, lineChars, ih, ih]
      split
      · rfl
      · rfl
  rcases h with rfl | hlast
  · rfl
  · obtain ⟨xs, rfl⟩ := List.getLast?_eq_some_iff.mp hlast
    exact hfeed xs []

end DnsGate.Text
