import Mathlib.Data.List.Infix
import DnsGate.Toml.Lines
import DnsGate.Toml.Printer

/-!
What may stand between the parts of a settings file: blanks and line ends with whole comments before
a part (`Trivia`), blanks and a comment at the end of a line (`LineEnd`).  Each is taken off the
text as it is written, whatever part follows, and none has a carriage return.  Neither goes on a
value that it follows (`EndsValue`).
-/

namespace DnsGate.Toml

/-! ## Spans -/

section Spans

variable {p : Char → Bool} {u rest : List Char}

theorem span_append (hu : ∀ c ∈ u, p c = true) (hrest : ∀ c, rest.head? = some c → p c = false) :
    (u ++ rest).span p = (u, rest) := by
  have hstop : rest.takeWhile p = [] ∧ rest.dropWhile p = rest := by
    cases rest with
    | nil => exact ⟨rfl, rfl⟩
    | cons c rest => simp [hrest c rfl]
  rw [List.span_eq_takeWhile_dropWhile, List.takeWhile_append_of_pos hu,
    List.dropWhile_append_of_pos hu, hstop.1, hstop.2, List.append_nil]

theorem upTo_append (u rest : List Char) : upTo rest (u ++ rest) = u := by
  rw [upTo, List.length_append, Nat.add_sub_cancel, List.take_left]

end Spans

/-! ## Blanks and comments -/

/-- Whether a character is neither a blank nor part of a line end, and starts no comment. -/
def startsItem (c : Char) : Bool := !isBlank c && c != '\n' && c != '\r' && c != '#'

/-- What may stand before an item or a line: blanks, line ends and whole comments. -/
inductive Trivia : List Char → Prop where
  | nil : Trivia []
  | blank {c : Char} {b : List Char} (hc : isBlank c = true ∨ c = '\n') (hb : Trivia b) :
      Trivia (c :: b)
  | comment {body b : List Char} (hbody : ∀ c ∈ body, isPlain c = true) (hb : Trivia b) :
      Trivia ('#' :: body ++ '\n' :: b)

theorem isBlank_iff {c : Char} : isBlank c = true ↔ c = ' ' ∨ c = '\t' := by
  simp [isBlank]

theorem ne_newline_of_isPlain {c : Char} (h : isPlain c = true) : c ≠ '\n' ∧ c ≠ '\r' := by
  constructor
  · rintro rfl
    exact absurd h (by decide)
  · rintro rfl
    exact absurd h (by decide)

section Reading

variable {b cs : List Char} {c : Char}

theorem afterTrivia?_item (hc : startsItem c = true) :
    afterTrivia? false (c :: cs) = some (c :: cs) := by
  simp only [startsItem, Bool.and_eq_true, bne_iff_ne, Bool.not_eq_true'] at hc
  obtain ⟨⟨⟨hblank, hline⟩, hreturn⟩, hcomment⟩ := hc
  rw [afterTrivia?]
  simp [hline, hblank, hcomment, endsLine, hreturn]

theorem afterTrivia?_comment {body : List Char} (hbody : ∀ c ∈ body, isPlain c = true) :
    afterTrivia? true (body ++ '\n' :: cs) = afterTrivia? false cs := by
  induction body with
  | nil => simp [afterTrivia?]
  | cons d body ih =>
    have hplain := hbody d List.mem_cons_self
    obtain ⟨hline, hreturn⟩ := ne_newline_of_isPlain hplain
    rw [List.cons_append, afterTrivia?]
    simp only [hline, endsLine, hplain, if_false, if_true, Bool.false_and, Bool.or_self,
      Bool.false_eq_true, beq_eq_false_iff_ne.mpr hline, beq_eq_false_iff_ne.mpr hreturn]
    exact ih fun e he => hbody e (List.mem_cons_of_mem _ he)

theorem Trivia.reads (hb : Trivia b) : afterTrivia? false (b ++ cs) = afterTrivia? false cs := by
  induction hb with
  | nil => rfl
  | @blank c b hc _ ih =>
    have hskip : afterTrivia? false (c :: (b ++ cs)) = afterTrivia? false (b ++ cs) := by
      rcases hc with hc | rfl
      · rcases isBlank_iff.mp hc with rfl | rfl <;> simp [afterTrivia?, endsLine, isBlank]
      · simp [afterTrivia?]
    exact hskip.trans ih
  | @comment body b hbody _ ih =>
    have hstart : afterTrivia? false ('#' :: (body ++ '\n' :: (b ++ cs))) =
        afterTrivia? true (body ++ '\n' :: (b ++ cs)) := by
      simp [afterTrivia?, endsLine, isBlank]
    rw [List.append_assoc, List.cons_append, List.cons_append, hstart,
      afterTrivia?_comment hbody, ih]

theorem Trivia.clean (hb : Trivia b) : '\r' ∉ b := by
  induction hb with
  | nil => exact List.not_mem_nil
  | @blank c b hc _ ih =>
    rw [List.mem_cons]
    rintro (rfl | h)
    · rcases hc with hc | hc
      · exact absurd hc (by decide)
      · exact absurd hc (by decide)
    · exact ih h
  | @comment body b hbody _ ih =>
    simp only [List.mem_append, List.mem_cons, not_or]
    refine ⟨⟨by decide, fun h => ?_⟩, by decide, ih⟩
    exact (ne_newline_of_isPlain (hbody _ h)).2 rfl

theorem readTrivia_append (hb : Trivia b) (hcs : ∃ c, cs.head? = some c ∧ startsItem c = true) :
    readTrivia (b ++ cs) = some (b, cs) := by
  obtain ⟨c, hc, hitem⟩ := hcs
  obtain ⟨ds, rfl⟩ := List.head?_eq_some_iff.mp hc
  rw [readTrivia, hb.reads, afterTrivia?_item hitem, Option.map_some, upTo_append]

end Reading

/-! ## Ends of values -/

/-- What may follow a value: no quote, no character of a scalar without quotes, and no digit after a
blank, which would make a date go on with a time. -/
structure EndsValue (rest : List Char) : Prop where
  head : ∀ c, rest.head? = some c → c ≠ '"' ∧ c ≠ '\'' ∧ isBareValue c = false
  time : ∀ c more, rest = ' ' :: c :: more → c.isDigit = false

theorem isBareValue_of_isDigit {c : Char} (h : c.isDigit = true) : isBareValue c = true := by
  simp [isBareValue, Char.isAlphanum, h]

theorem EndsValue.of_head {c : Char} {cs : List Char} (hc : c ≠ ' ')
    (hend : c ≠ '"' ∧ c ≠ '\'' ∧ isBareValue c = false) : EndsValue (c :: cs) where
  head := by
    intro d hd
    exact Option.some.inj hd ▸ hend
  time := by
    intro d more heq
    exact absurd (List.cons.inj heq).1 hc

theorem EndsValue.blank {c : Char} {cs : List Char} (hc : isBlank c = true) (h : EndsValue cs) :
    EndsValue (c :: cs) where
  head := by
    intro d hd
    cases hd
    rcases isBlank_iff.mp hc with rfl | rfl <;> decide
  time := by
    intro d more heq
    have hd := (h.head d ((List.cons.inj heq).2 ▸ rfl)).2.2
    by_contra hdigit
    rw [isBareValue_of_isDigit (by simpa using hdigit)] at hd
    cases hd

theorem Trivia.endsValue {b cs : List Char} (hb : Trivia b) (h : EndsValue cs) :
    EndsValue (b ++ cs) := by
  induction hb with
  | nil => exact h
  | @blank c b hc _ ih =>
    rcases hc with hc | rfl
    · exact ih.blank hc
    · exact .of_head (by decide) (by decide)
  | comment => exact .of_head (by decide) (by decide)

/-! ## Ends of lines -/

/-- Blanks of one line. -/
def Blanks (b : List Char) : Prop := ∀ c ∈ b, isBlank c = true

/-- What may end a line: blanks and a comment. -/
inductive LineEnd : List Char → Prop where
  | blanks {b : List Char} (hb : Blanks b) : LineEnd b
  | comment {b body : List Char} (hb : Blanks b) (hbody : ∀ c ∈ body, isPlain c = true) :
      LineEnd (b ++ '#' :: body)

section Lines

variable {a b cs : List Char}

theorem blanks_nil : Blanks [] := fun _ h => absurd h List.not_mem_nil

theorem blanks_one : Blanks [' '] := fun c h => by rw [List.mem_singleton.mp h]; rfl

theorem Blanks.clean (hb : Blanks b) : '\r' ∉ b := fun h => absurd (hb _ h) (by decide)

theorem Blanks.trivia (hb : Blanks b) : Trivia b := by
  induction b with
  | nil => exact .nil
  | cons c b ih =>
    exact .blank (Or.inl (hb c List.mem_cons_self)) (ih fun d hd => hb d (List.mem_cons_of_mem _ hd))

theorem spanBlanks_append (hb : Blanks b) (hcs : ∀ c, cs.head? = some c → isBlank c = false) :
    spanBlanks (b ++ cs) = (b, cs) := span_append hb hcs

theorem LineEnd.reads (ha : LineEnd a) (cs : List Char) :
    readLineEnd (a ++ '\n' :: cs) = some (a, cs) := by
  cases ha with
  | blanks hb =>
    have hspan : spanBlanks (a ++ '\n' :: cs) = (a, '\n' :: cs) :=
      spanBlanks_append hb fun c hc => by cases hc; decide
    unfold readLineEnd
    rw [hspan]
    simp [afterNewline?]
  | @comment b body hb hbody =>
    have hspan : spanBlanks (b ++ '#' :: (body ++ '\n' :: cs)) =
        (b, '#' :: (body ++ '\n' :: cs)) :=
      spanBlanks_append hb fun c hc => by cases hc; decide
    have hcomment : (body ++ '\n' :: cs).span isPlain = (body, '\n' :: cs) :=
      span_append hbody fun c hc => by cases hc; decide
    unfold readLineEnd
    rw [List.append_assoc, List.cons_append, hspan]
    simp only [hcomment]
    rfl

theorem LineEnd.endsValue (ha : LineEnd a) (cs : List Char) : EndsValue (a ++ '\n' :: cs) := by
  cases ha with
  | blanks hb => exact hb.trivia.endsValue (.of_head (by decide) (by decide))
  | @comment b body hb hbody =>
    rw [List.append_assoc]
    exact hb.trivia.endsValue (.of_head (by decide) (by decide))

theorem LineEnd.clean (ha : LineEnd a) : '\r' ∉ a := by
  cases ha with
  | blanks hb => exact hb.clean
  | comment hb hbody =>
    rw [List.mem_append, List.mem_cons, not_or, not_or]
    exact ⟨hb.clean, by decide, fun h => (ne_newline_of_isPlain (hbody _ h)).2 rfl⟩

end Lines

/-! ## Spacing -/

/-- Spacing with the usual blanks spelled out. -/
def Spacing.spelled (usual : Usual) (s : Spacing) : Spacing :=
  ⟨some (s.before.getD usual.1), some (s.after.getD usual.2)⟩

/-- What stands before and after something, where it is not the usual. -/
structure Spacing.Fits (before after : List Char → Prop) (s : Spacing) : Prop where
  before : ∀ b, s.before = some b → before b
  after : ∀ a, s.after = some a → after a

theorem Spacing.Fits.getD {before after : List Char → Prop} {s : Spacing}
    (h : s.Fits before after) (usual : Usual) (hbefore : before usual.1) (hafter : after usual.2) :
    before (s.before.getD usual.1) ∧ after (s.after.getD usual.2) := by
  constructor
  · cases hs : s.before with
    | none => exact hbefore
    | some b => exact h.before b hs
  · cases hs : s.after with
    | none => exact hafter
    | some a => exact h.after a hs

theorem Spacing.Fits.spelled {before after : List Char → Prop} {s : Spacing} {usual : Usual}
    (h : s.Fits before after) (hbefore : before usual.1) (hafter : after usual.2) :
    (s.spelled usual).Fits before after where
  before := by
    intro b hb
    cases hb
    exact (h.getD usual hbefore hafter).1
  after := by
    intro a ha
    cases ha
    exact (h.getD usual hbefore hafter).2

theorem Spacing.Fits.clean {before after : List Char → Prop} {s : Spacing}
    (h : s.Fits before after) (hbefore : ∀ b, before b → '\r' ∉ b) (hafter : ∀ a, after a → '\r' ∉ a)
    (usual : Usual) (husual : '\r' ∉ usual.1 ∧ '\r' ∉ usual.2) {cs : List Char} (hcs : '\r' ∉ cs) :
    '\r' ∉ s.around usual cs := by
  have hfits : s.Fits ('\r' ∉ ·) ('\r' ∉ ·) :=
    ⟨fun b hb => hbefore b (h.before b hb), fun a ha => hafter a (h.after a ha)⟩
  obtain ⟨hfirst, hlast⟩ := hfits.getD usual husual.1 husual.2
  simp [around, hfirst, hcs, hlast]

end DnsGate.Toml
