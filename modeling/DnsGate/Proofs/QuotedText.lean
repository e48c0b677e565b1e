import Mathlib.Data.List.Infix
import DnsGate.Toml.Style

/-!
Text that is quoted and read back.  Whatever form a text is written in, reading takes just that text
off, as long as no further quote follows (`readString?_quote`).  Within triple quotes the text may
end in quotes of its own, which closing then gives back (`closeTriple?_written`).
-/

namespace DnsGate.Toml

/-! ## Escapes -/

theorem digit?_digitChar_toUpper {d : Nat} (h : d < 16) :
    Text.digit? 16 (Nat.digitChar d).toUpper = some d := by
  decide +revert

section Basic

variable {triple : Bool} {c : Char} {cs rest : List Char}

theorem readBasic_escape {d : Char} (hwidth : escapeWidth? d = none) (hd : escaped? d = some c) :
    readBasic triple (.text false) ('\\' :: d :: rest) =
      push c (readBasic triple (.text false) rest) := by
  simp [readBasic, hwidth, hd]

/-- A character that stands for itself. -/
theorem readBasic_plain (hquote : c ≠ '"') (hslash : c ≠ '\\')
    (h : isPlain c = true ∨ (triple = true ∧ c = '\n')) :
    readBasic triple (.text false) (c :: rest) =
      push c (readBasic triple (.text false) rest) := by
  have hcond : (isPlain c || (triple && endsLine c rest)) = true := by
    rcases h with h | ⟨rfl, rfl⟩
    · rw [h, Bool.true_or]
    · simp [endsLine]
  rw [readBasic]
  simp [hquote, hslash, hcond]

theorem readBasic_digit {left value d : Nat} (hd : d < 16) (hleft : 1 < left) :
    readBasic triple (.digits left value) ((Nat.digitChar d).toUpper :: rest) =
      readBasic triple (.digits (left - 1) (value * 16 + d)) rest := by
  rw [readBasic, digit?_digitChar_toUpper hd]
  exact if_pos hleft

/-- An escape by number. -/
theorem readBasic_fourDigits (h : c.toNat < 65536) :
    readBasic triple (.text false) ('\\' :: 'u' :: (fourDigits c.toNat ++ rest)) =
      push c (readBasic triple (.text false) rest) := by
  have hstart : readBasic triple (.text false) ('\\' :: 'u' :: (fourDigits c.toNat ++ rest)) =
      readBasic triple (.digits 4 0) (fourDigits c.toNat ++ rest) := by
    simp [readBasic, escapeWidth?]
  have hvalue : (((0 * 16 + c.toNat / 4096 % 16) * 16 + c.toNat / 256 % 16) * 16 +
      c.toNat / 16 % 16) * 16 + c.toNat % 16 = c.toNat := by omega
  have hchar : charOfNumber? c.toNat = some c := by
    rw [charOfNumber?, if_pos (show c.toNat.isValidChar from c.valid), Char.ofNat_toNat]
  rw [hstart]
  simp only [fourDigits, List.map_cons, List.map_nil, List.cons_append, List.nil_append]
  rw [readBasic_digit (Nat.mod_lt _ (by decide)) (by decide),
    readBasic_digit (Nat.mod_lt _ (by decide)) (by decide),
    readBasic_digit (Nat.mod_lt _ (by decide)) (by decide), readBasic,
    digit?_digitChar_toUpper (Nat.mod_lt _ (by decide))]
  dsimp only
  rw [if_neg (by decide), hvalue, hchar]
  rfl

theorem readBasic_escapeChar (triple : Bool) (c : Char) (rest : List Char) :
    readBasic triple (.text false) (escapeChar triple c ++ rest) =
      push c (readBasic triple (.text false) rest) := by
  unfold escapeChar
  split
  any_goals exact readBasic_escape rfl rfl
  · cases triple with
    | true => exact readBasic_plain (by decide) (by decide) (Or.inr ⟨rfl, rfl⟩)
    | false => exact readBasic_escape rfl rfl
  · rename_i hquote hslash
    split
    · rename_i hplain
      exact readBasic_plain hquote hslash (Or.inl hplain)
    · rename_i hplain
      have hsmall : c.toNat < 65536 := by
        simp only [isPlain, Bool.or_eq_true, Bool.and_eq_true, not_or, not_and] at hplain
        have := hplain.2
        simp at this
        omega
      exact readBasic_fourDigits hsmall

/-- Basic text up to its closing quote. -/
theorem readBasic_escapeAll (cs rest : List Char) :
    readBasic false (.text false) (escapeAll false 0 cs ++ '"' :: rest) = some (cs, rest) := by
  induction cs with
  | nil => simp [escapeAll, readBasic]
  | cons c cs ih =>
    rw [escapeAll, if_neg (by simp), List.append_assoc, readBasic_escapeChar, ih]
    rfl

end Basic

/-! ## Triple quotes -/

/-- What closing gives back of a text that is read up to some quote of it, if the text goes on with
`us` in which no two quotes stand first: the quotes that it ends in, if only those are left. -/
theorem closeTriple?_written {q : Char} {us rest : List Char} (hus : ¬[q, q] <+: us)
    (hrest : rest.head? ≠ some q) :
    closeTriple? q (us ++ q :: q :: q :: rest) =
      if us = [] then some ([q], rest) else if us = [q] then some ([q, q], rest) else none := by
  have hstop : rest.takeWhile (· == q) = [] := by
    cases rest with
    | nil => rfl
    | cons r rest =>
      have hr : r ≠ q := fun h => hrest (congrArg some h)
      simp [hr]
  match us with
  | [] => simp [closeTriple?, hstop]
  | [u] =>
    by_cases hu : u = q
    · simp [closeTriple?, hu, hstop]
    · simp [closeTriple?, hu]
  | u :: v :: us =>
    have huv : ¬(u = q ∧ v = q) := by
      rintro ⟨rfl, rfl⟩
      exact hus ⟨us, rfl⟩
    simp [closeTriple?, huv]

theorem closeTriple?_end {q : Char} {rest : List Char} (hrest : rest.head? ≠ some q) :
    closeTriple? q (q :: q :: rest) = some ([], rest) := by
  cases rest with
  | nil => simp [closeTriple?]
  | cons r rest =>
    have hr : r ≠ q := fun h => hrest (congrArg some h)
    simp [closeTriple?, hr]

/-- An escaped character does not start with a quote. -/
theorem head?_escapeChar (triple : Bool) (c : Char) :
    ∃ d, (escapeChar triple c).head? = some d ∧ d ≠ '"' := by
  unfold escapeChar
  split
  any_goals exact ⟨'\\', rfl, by decide⟩
  · cases triple with
    | true => exact ⟨'\n', rfl, by decide⟩
    | false => exact ⟨'\\', rfl, by decide⟩
  · rename_i hquote _
    split
    · exact ⟨_, rfl, hquote⟩
    · exact ⟨'\\', rfl, by decide⟩

theorem escapeAll_raw {run : Nat} (h : run < 2) (cs : List Char) :
    escapeAll true run ('"' :: cs) = '"' :: escapeAll true (run + 1) cs := if_pos ⟨rfl, rfl, h⟩

theorem escapeAll_escaped {run : Nat} {c : Char} (h : ¬(c = '"' ∧ run < 2)) (cs : List Char) :
    escapeAll true run (c :: cs) = escapeChar true c ++ escapeAll true 0 cs :=
  if_neg fun hraw => h ⟨hraw.2.1, hraw.2.2⟩

/-- What is written of a character, if it does not start with a quote, starts what is written of
all. -/
theorem head?_escapeAll {run : Nat} {c : Char} (h : ¬(c = '"' ∧ run < 2)) (cs : List Char) :
    ∃ d, (escapeAll true run (c :: cs)).head? = some d ∧ d ≠ '"' := by
  obtain ⟨d, hd, hquote⟩ := head?_escapeChar true c
  refine ⟨d, ?_, hquote⟩
  rw [escapeAll_escaped h, List.head?_append, hd]
  rfl

theorem escapeAll_eq_nil {run : Nat} {cs : List Char} (h : escapeAll true run cs = []) :
    cs = [] := by
  cases cs with
  | nil => rfl
  | cons c cs =>
    by_cases hraw : c = '"' ∧ run < 2
    · obtain ⟨rfl, hrun⟩ := hraw
      cases (escapeAll_raw hrun cs).symm.trans h
    · obtain ⟨d, hd, -⟩ := head?_escapeAll hraw cs
      cases hd.symm.trans (congrArg List.head? h)

theorem escapeAll_eq_quote {run : Nat} {cs : List Char} (h : escapeAll true run cs = ['"']) :
    cs = ['"'] := by
  cases cs with
  | nil => cases h
  | cons c cs =>
    by_cases hraw : c = '"' ∧ run < 2
    · obtain ⟨rfl, hrun⟩ := hraw
      have htail := (escapeAll_raw hrun cs).symm.trans h
      rw [escapeAll_eq_nil (List.cons.inj htail).2]
    · obtain ⟨d, hd, hquote⟩ := head?_escapeAll hraw cs
      exact absurd (Option.some.inj (hd.symm.trans (congrArg List.head? h))) hquote

/-- After a quote at most one more is written as it is. -/
theorem quotes_escapeAll {run : Nat} (hrun : 1 ≤ run) (cs : List Char) :
    ¬['"', '"'] <+: escapeAll true run cs := by
  rintro ⟨us, hus⟩
  match cs with
  | [] => cases hus
  | c :: cs =>
    by_cases hraw : c = '"' ∧ run < 2
    · obtain ⟨rfl, hlt⟩ := hraw
      have htail := (List.cons.inj (hus.trans (escapeAll_raw hlt cs))).2
      match cs with
      | [] => cases htail
      | d :: cs =>
        have hescaped : ¬(d = '"' ∧ run + 1 < 2) := fun h => by omega
        obtain ⟨e, he, hquote⟩ := head?_escapeAll hescaped cs
        exact hquote (Option.some.inj (he.symm.trans (congrArg List.head? htail.symm)))
    · obtain ⟨d, hd, hquote⟩ := head?_escapeAll hraw cs
      exact hquote (Option.some.inj (hd.symm.trans (congrArg List.head? hus.symm)))

theorem readBasic_escapeAll_triple {rest : List Char} (hrest : rest.head? ≠ some '"') (run : Nat)
    (cs : List Char) :
    readBasic true (.text false) (escapeAll true run cs ++ '"' :: '"' :: '"' :: rest) =
      some (cs, rest) := by
  -- a quote of the text closes it only if quotes are all that is left of it
  have hquote (us : List Char) : readBasic true (.text false) ('"' :: us) =
      (closeTriple? '"' us).or (push '"' (readBasic true (.text false) us)) := by
    simp [readBasic]
  induction cs generalizing run with
  | nil => rw [escapeAll, List.nil_append, hquote, closeTriple?_end hrest, Option.some_or]
  | cons c cs ih =>
    by_cases hraw : c = '"' ∧ run < 2
    · obtain ⟨rfl, hrun⟩ := hraw
      rw [escapeAll_raw hrun, List.cons_append, hquote, ih,
        closeTriple?_written (quotes_escapeAll (by omega) cs) hrest]
      split
      · rename_i hnil
        rw [escapeAll_eq_nil hnil]
        rfl
      · split
        · rename_i hone
          rw [escapeAll_eq_quote hone]
          rfl
        · rfl
    · rw [escapeAll_escaped hraw, List.append_assoc, readBasic_escapeChar, ih]
      rfl

/-! ## Literal text -/

theorem readLiteral_plain {triple : Bool} {c : Char} {rest : List Char} (hquote : c ≠ '\'')
    (h : isPlain c = true ∨ (triple = true ∧ c = '\n')) :
    readLiteral triple (c :: rest) = push c (readLiteral triple rest) := by
  have hcond : (isPlain c || (triple && endsLine c rest)) = true := by
    rcases h with h | ⟨rfl, rfl⟩
    · rw [h, Bool.true_or]
    · simp [endsLine]
  rw [readLiteral]
  simp [hquote, hcond]

theorem readLiteral_append {cs rest : List Char} (hquote : '\'' ∉ cs)
    (hplain : ∀ c ∈ cs, isPlain c = true) :
    readLiteral false (cs ++ '\'' :: rest) = some (cs, rest) := by
  induction cs with
  | nil => simp [readLiteral]
  | cons c cs ih =>
    rw [List.cons_append, readLiteral_plain (fun h => hquote (h ▸ List.mem_cons_self))
      (Or.inl (hplain c List.mem_cons_self)), ih (fun h => hquote (List.mem_cons_of_mem _ h))
      fun d hd => hplain d (List.mem_cons_of_mem _ hd)]
    rfl

theorem le_longestRun (c : Char) (run : Nat) (cs : List Char) : run ≤ longestRun c run cs := by
  induction cs generalizing run with
  | nil => exact le_rfl
  | cons d cs ih =>
    rw [longestRun]
    split
    · exact (Nat.le_succ run).trans (ih _)
    · exact le_max_left _ _

theorem longestRun_mono (c : Char) {run run' : Nat} (h : run ≤ run') (cs : List Char) :
    longestRun c run cs ≤ longestRun c run' cs := by
  induction cs generalizing run run' with
  | nil => exact h
  | cons d cs ih =>
    rw [longestRun, longestRun]
    split
    · exact ih (Nat.succ_le_succ h)
    · omega

theorem longestRun_tail_le (c d : Char) (cs : List Char) :
    longestRun c 0 cs ≤ longestRun c 0 (d :: cs) := by
  rw [longestRun]
  split
  · exact longestRun_mono c (Nat.zero_le 1) cs
  · exact le_max_right _ _

theorem readLiteral_triple {cs rest : List Char} (hrest : rest.head? ≠ some '\'')
    (hruns : longestRun '\'' 0 cs ≤ 2) (hplain : ∀ c ∈ cs, isPlain c = true ∨ c = '\n') :
    readLiteral true (cs ++ '\'' :: '\'' :: '\'' :: rest) = some (cs, rest) := by
  have hquote (us : List Char) : readLiteral true ('\'' :: us) =
      (closeTriple? '\'' us).or (push '\'' (readLiteral true us)) := by
    simp [readLiteral]
  induction cs with
  | nil => rw [List.nil_append, hquote, closeTriple?_end hrest, Option.some_or]
  | cons c cs ih =>
    have hrec := ih ((longestRun_tail_le _ c cs).trans hruns)
      fun d hd => hplain d (List.mem_cons_of_mem _ hd)
    by_cases hc : c = '\''
    · subst hc
      have hprefix : ¬['\'', '\''] <+: cs := by
        rintro ⟨us, rfl⟩
        have hlong := le_longestRun '\'' 3 us
        simp only [longestRun, List.cons_append, List.nil_append, if_true, Nat.zero_add,
          Nat.reduceAdd] at hruns
        omega
      rw [List.cons_append, hquote, hrec, closeTriple?_written hprefix hrest]
      split
      · rename_i hnil
        rw [hnil]
        rfl
      · split
        · rename_i hone
          rw [hone]
          rfl
        · rfl
    · rw [List.cons_append, readLiteral_plain hc
        ((hplain c List.mem_cons_self).imp_right fun h => ⟨rfl, h⟩), hrec]
      rfl

/-! ## Characters of quoted text -/

theorem isPlain_of_mem_fourDigits {n : Nat} {d : Char} (h : d ∈ fourDigits n) :
    isPlain d = true := by
  have hdigit : ∀ v < 16, isPlain (Nat.digitChar v).toUpper = true := by decide
  obtain ⟨v, hv, rfl⟩ := List.mem_map.mp h
  refine hdigit v ?_
  simp only [List.mem_cons, List.not_mem_nil, or_false] at hv
  omega

theorem isPlain_of_mem_escapeChar {triple : Bool} {c d : Char} (h : d ∈ escapeChar triple c) :
    isPlain d = true ∨ (d = '\n' ∧ c = '\n') := by
  have hescape {e : Char} (he : isPlain e = true) (hd : d ∈ ['\\', e]) : isPlain d = true := by
    rcases List.mem_pair.mp hd with rfl | rfl
    · decide
    · exact he
  unfold escapeChar at h
  split at h
  any_goals exact Or.inl (hescape (by decide) h)
  · cases triple with
    | true => exact Or.inr ⟨List.mem_singleton.mp h, rfl⟩
    | false => exact Or.inl (hescape (by decide) h)
  · split at h
    · rename_i hplain
      exact Or.inl (List.mem_singleton.mp h ▸ hplain)
    · rcases List.mem_cons.mp h with rfl | h
      · exact Or.inl (by decide)
      · rcases List.mem_cons.mp h with rfl | h
        · exact Or.inl (by decide)
        · exact Or.inl (isPlain_of_mem_fourDigits h)

theorem isPlain_of_mem_escapeAll {triple : Bool} {run : Nat} {cs : List Char} {d : Char}
    (h : d ∈ escapeAll triple run cs) : isPlain d = true ∨ (d = '\n' ∧ '\n' ∈ cs) := by
  induction cs generalizing run with
  | nil => cases h
  | cons c cs ih =>
    have hlater {run : Nat} (h : d ∈ escapeAll triple run cs) :
        isPlain d = true ∨ (d = '\n' ∧ '\n' ∈ c :: cs) :=
      (ih h).imp_right fun hline => ⟨hline.1, List.mem_cons_of_mem c hline.2⟩
    rw [escapeAll] at h
    split at h
    · rename_i hquote
      rcases List.mem_cons.mp h with rfl | h
      · rw [hquote.2.1]
        exact Or.inl (by decide)
      · exact hlater h
    · rcases List.mem_append.mp h with h | h
      · rcases isPlain_of_mem_escapeChar h with hplain | ⟨hd, rfl⟩
        · exact Or.inl hplain
        · exact Or.inr ⟨hd, List.mem_cons_self⟩
      · exact hlater h

/-! ## All forms -/

/-- What a text must be for a form that has no escapes. -/
def Form.Suits : Form → List Char → Prop
  | basic, _ | tripleBasic, _ => True
  | literal, cs => '\'' ∉ cs ∧ ∀ c ∈ cs, isPlain c = true
  | tripleLiteral, cs => longestRun '\'' 0 cs ≤ 2 ∧ ∀ c ∈ cs, isPlain c = true ∨ c = '\n'

/-- A text is written in a form that suits it. -/
theorem Form.suits_of (cs : List Char) : (Form.of cs).Suits cs := by
  have hsafe (h : (!cs.any needsEscape) = true) : ∀ c ∈ cs, isPlain c = true ∨ c = '\n' := by
    intro c hc
    rw [Bool.not_eq_true', List.any_eq_false] at h
    have hno := h c hc
    by_cases hplain : isPlain c = true
    · exact Or.inl hplain
    · simpa [needsEscape, hplain] using hno
  unfold Form.of
  dsimp only
  split
  · trivial
  · split
    · rename_i h
      refine ⟨h.2.1, fun c hc => (hsafe h.1 c hc).resolve_right ?_⟩
      rintro rfl
      exact h.2.2 hc
    · split
      · trivial
      · split
        · rename_i h
          exact ⟨h.2, hsafe h.1⟩
        · split <;> trivial

theorem isPlain_of_mem_quoteIn {form : Form} {cs : List Char} (hform : form.Suits cs) {d : Char}
    (h : d ∈ quoteIn form cs) : isPlain d = true ∨ d = '\n' := by
  have hquote {q : Char} {n : Nat} (hq : isPlain q = true) (h : d ∈ List.replicate n q) :
      isPlain d = true := List.eq_of_mem_replicate h ▸ hq
  have hfirst (h : d ∈ if '\n' ∈ cs then ['\n'] else []) : d = '\n' := by
    split at h
    · exact List.mem_singleton.mp h
    · cases h
  have hescaped {triple : Bool} (h : d ∈ escapeAll triple 0 cs) : isPlain d = true ∨ d = '\n' :=
    (isPlain_of_mem_escapeAll h).imp_right And.left
  cases form with
  | basic =>
    rcases List.mem_append.mp h with h | h
    · rcases List.mem_cons.mp h with rfl | h
      · exact Or.inl (by decide)
      · exact hescaped h
    · exact Or.inl (hquote (n := 1) (by decide) h)
  | literal =>
    rcases List.mem_append.mp h with h | h
    · rcases List.mem_cons.mp h with rfl | h
      · exact Or.inl (by decide)
      · exact Or.inl (hform.2 d h)
    · exact Or.inl (hquote (n := 1) (by decide) h)
  | tripleBasic =>
    rcases List.mem_append.mp h with h | h
    · rcases List.mem_append.mp h with h | h
      · rcases List.mem_append.mp h with h | h
        · exact Or.inl (hquote (n := 3) (by decide) h)
        · exact Or.inr (hfirst h)
      · exact hescaped h
    · exact Or.inl (hquote (n := 3) (by decide) h)
  | tripleLiteral =>
    rcases List.mem_append.mp h with h | h
    · rcases List.mem_append.mp h with h | h
      · rcases List.mem_append.mp h with h | h
        · exact Or.inl (hquote (n := 3) (by decide) h)
        · exact Or.inr (hfirst h)
      · exact hform.2 d h
    · exact Or.inl (hquote (n := 3) (by decide) h)

/-- Quoted text consists of characters that stand for themselves and line ends. -/
theorem isPlain_of_mem_quote {s : String} {d : Char} (h : d ∈ quote s) :
    isPlain d = true ∨ d = '\n' := isPlain_of_mem_quoteIn (Form.suits_of s.toList) h

section Opening

variable {q : Char} {us rest : List Char}

theorem readString?_basic (h : ¬['"', '"'] <+: us) :
    readString? ('"' :: us) = readBasic false (.text false) us := by
  unfold readString?
  split
  · rename_i heq
    cases heq
    exact absurd ⟨_, rfl⟩ h
  · rename_i heq
    cases heq
  · rfl

theorem readString?_literal (h : ¬['\'', '\''] <+: us) :
    readString? ('\'' :: us) = readLiteral false us := by
  unfold readString?
  split
  · rename_i heq
    cases heq
  · rename_i heq
    cases heq
    exact absurd ⟨_, rfl⟩ h
  · rfl

/-- After three opening quotes a text starts on the same line unless it has a line end. -/
theorem afterNewline?_first {cs : List Char}
    (hus : ∀ d, us.head? = some d → isPlain d = true ∨ (d = '\n' ∧ '\n' ∈ cs)) :
    (afterNewline? ((if '\n' ∈ cs then ['\n'] else []) ++ us)).getD
      ((if '\n' ∈ cs then ['\n'] else []) ++ us) = us := by
  split
  · rfl
  · rename_i hline
    have hhead : ∀ d, us.head? = some d → d ≠ '\n' ∧ d ≠ '\r' := by
      intro d hd
      have hplain := (hus d hd).resolve_right fun h => hline h.2
      constructor
      · rintro rfl
        exact absurd hplain (by decide)
      · rintro rfl
        exact absurd hplain (by decide)
    rw [List.nil_append]
    unfold afterNewline?
    split
    · exact absurd rfl (hhead _ rfl).1
    · exact absurd rfl (hhead _ rfl).2
    · rfl

end Opening

/-- Quoted text is read back, whatever follows but a quote. -/
theorem readString?_quoteIn {form : Form} {cs rest : List Char} (hform : form.Suits cs)
    (hbasic : rest.head? ≠ some '"') (hliteral : rest.head? ≠ some '\'') :
    readString? (quoteIn form cs ++ rest) = some (cs, rest) := by
  cases form with
  | basic =>
    have hopen : ¬['"', '"'] <+: escapeAll false 0 cs ++ '"' :: rest := by
      rintro ⟨us, hus⟩
      cases cs with
      | nil => exact hbasic (congrArg List.head? (List.cons.inj hus).2).symm
      | cons c cs =>
        obtain ⟨d, hd, hquote⟩ := head?_escapeChar false c
        have hhead : (escapeAll false 0 (c :: cs) ++ '"' :: rest).head? = some d := by
          rw [escapeAll, if_neg (by simp), List.append_assoc, List.head?_append, hd]
          rfl
        exact hquote (Option.some.inj (hhead.symm.trans (congrArg List.head? hus.symm)))
    have htext : quoteIn .basic cs ++ rest = '"' :: (escapeAll false 0 cs ++ '"' :: rest) := by
      simp [quoteIn]
    rw [htext, readString?_basic hopen, readBasic_escapeAll]
  | literal =>
    have hopen : ¬['\'', '\''] <+: cs ++ '\'' :: rest := by
      rintro ⟨us, hus⟩
      cases cs with
      | nil => exact hliteral (congrArg List.head? (List.cons.inj hus).2).symm
      | cons c cs =>
        exact hform.1 ((List.cons.inj hus).1 ▸ List.mem_cons_self)
    have htext : quoteIn .literal cs ++ rest = '\'' :: (cs ++ '\'' :: rest) := by
      simp [quoteIn]
    rw [htext, readString?_literal hopen, readLiteral_append hform.1 hform.2]
  | tripleBasic =>
    have hhead : ∀ d, (escapeAll true 0 cs ++ '"' :: '"' :: '"' :: rest).head? = some d →
        isPlain d = true ∨ (d = '\n' ∧ '\n' ∈ cs) := by
      intro d hd
      cases hus : escapeAll true 0 cs with
      | nil =>
        rw [hus] at hd
        cases hd
        exact Or.inl (by decide)
      | cons e us =>
        rw [hus] at hd
        cases hd
        exact isPlain_of_mem_escapeAll (hus ▸ List.mem_cons_self)
    have htext : quoteIn .tripleBasic cs ++ rest = '"' :: '"' :: '"' ::
        ((if '\n' ∈ cs then ['\n'] else []) ++
          (escapeAll true 0 cs ++ '"' :: '"' :: '"' :: rest)) := by
      simp [quoteIn]
    rw [htext]
    show readBasic true (.text false) _ = _
    rw [afterNewline?_first hhead, readBasic_escapeAll_triple hbasic]
  | tripleLiteral =>
    have hhead : ∀ d, (cs ++ '\'' :: '\'' :: '\'' :: rest).head? = some d →
        isPlain d = true ∨ (d = '\n' ∧ '\n' ∈ cs) := by
      intro d hd
      cases cs with
      | nil =>
        cases hd
        exact Or.inl (by decide)
      | cons c cs =>
        cases hd
        rcases hform.2 d List.mem_cons_self with hplain | rfl
        · exact Or.inl hplain
        · exact Or.inr ⟨rfl, List.mem_cons_self⟩
    have htext : quoteIn .tripleLiteral cs ++ rest = '\'' :: '\'' :: '\'' ::
        ((if '\n' ∈ cs then ['\n'] else []) ++ (cs ++ '\'' :: '\'' :: '\'' :: rest)) := by
      simp [quoteIn]
    rw [htext]
    show readLiteral true _ = _
    rw [afterNewline?_first hhead, readLiteral_triple hliteral hform.1 hform.2]

theorem readString?_quote (s : String) {rest : List Char} (hbasic : rest.head? ≠ some '"')
    (hliteral : rest.head? ≠ some '\'') :
    readString? (quote s ++ rest) = some (s.toList, rest) :=
  readString?_quoteIn (Form.suits_of s.toList) hbasic hliteral

end DnsGate.Toml
