import DnsGate.Proofs.DecimalText
import DnsGate.Proofs.QuotedText
import DnsGate.Proofs.TriviaText
import DnsGate.Settings.Decode
import DnsGate.Settings.Render

/-!
Values that are written and read back.  What is read back is the value with its usual blanks spelled
out (`Node.spelled`).  Main statement: a value that is put together of scalars that read back and of
blanks, line ends and whole comments between them reads back, whatever ends it
(`Node.Legible.reads`).
-/

namespace DnsGate.Toml

/-! ## Values -/

/-- A value is read off its text, whatever ends it. -/
def ReadsAs (depth : Nat) (u : List Char) (n : Node) : Prop :=
  ∀ fuel rest, 2 * u.length < fuel → EndsValue rest →
    readValue fuel depth (u ++ rest) = some (n, rest)

/-- Whether a value may start so. -/
def startsValue (c : Char) : Bool :=
  c == '"' || c == '\'' || c == '[' || c == '{' || isBareValue c

section Values

variable {fuel depth : Nat} {cs rest : List Char}

theorem readQuoted?_eq_none (h : ∀ c, cs.head? = some c → c ≠ '"' ∧ c ≠ '\'') :
    readQuoted? cs = none := by
  unfold readQuoted?
  split
  · exact absurd rfl (h _ rfl).1
  · exact absurd rfl (h _ rfl).2
  · rfl

theorem readString?_eq_none (h : ∀ c, cs.head? = some c → c ≠ '"' ∧ c ≠ '\'') :
    readString? cs = none := by
  unfold readString?
  split
  · exact absurd rfl (h _ rfl).1
  · exact absurd rfl (h _ rfl).2
  · exact readQuoted?_eq_none h

theorem readValue_string {s : List Char} (h : readString? cs = some (s, rest)) :
    readValue (fuel + 1) depth cs =
      some (.scalar {} (upTo rest cs) (.text (String.ofList s)), rest) := by
  unfold readValue
  rw [h]

theorem readValue_array {l : Listed Node} (hl : readItems fuel depth cs = some (l, rest)) :
    readValue (fuel + 1) (depth + 1) ('[' :: cs) =
      some (.array {} l.items l.comma l.closing, rest) := by
  have hstring : readString? ('[' :: cs) = none := by
    refine readString?_eq_none fun c hc => ?_
    cases hc
    decide
  unfold readValue
  rw [hstring]
  show (readItems fuel depth cs).bind _ = _
  rw [hl]
  rfl

theorem readValue_bare (hbare : ∀ c, cs.head? = some c → isBareValue c = true)
    {raw : List Char} {v : Scalar} (hspan : spanBare cs = (raw, rest))
    (hv : Scalar.ofBare? raw = some v) :
    readValue (fuel + 1) depth cs = some (.scalar {} raw v, rest) := by
  have hne {c : Char} {more : List Char} (hcs : cs = c :: more) (hc : isBareValue c = false) :
      False := by
    have := hbare c (hcs ▸ rfl)
    rw [hc] at this
    cases this
  have hstring : readString? cs = none := by
    refine readString?_eq_none fun c hc => ⟨?_, ?_⟩
    · rintro rfl
      exact absurd (hbare _ hc) (by decide)
    · rintro rfl
      exact absurd (hbare _ hc) (by decide)
  unfold readValue
  rw [hstring]
  dsimp only
  split
  · exact (hne rfl (by decide)).elim
  · exact (hne rfl (by decide)).elim
  · rw [hspan]
    dsimp only
    rw [hv]
    rfl

theorem startsValue_of_readValue {n : Node} (h : readValue fuel depth cs = some (n, rest)) :
    ∃ c, cs.head? = some c ∧ startsValue c = true := by
  by_contra hno
  have hhead : ∀ c, cs.head? = some c → startsValue c = false := by
    intro c hc
    by_contra hstarts
    exact hno ⟨c, hc, by simpa using hstarts⟩
  have hne {c : Char} {more : List Char} (hcs : cs = c :: more) (hc : startsValue c = true) :
      False := by
    have := hhead c (hcs ▸ rfl)
    rw [hc] at this
    cases this
  have hstring : readString? cs = none := by
    refine readString?_eq_none fun c hc => ⟨?_, ?_⟩
    · rintro rfl
      exact absurd (hhead _ hc) (by decide)
    · rintro rfl
      exact absurd (hhead _ hc) (by decide)
  have hspan : spanBare cs = ([], cs) := by
    have hbare : cs.span isBareValue = ([], cs) := by
      refine span_append (u := []) (by simp) fun c hc => ?_
      have := hhead c hc
      simp only [startsValue, Bool.or_eq_false_iff] at this
      exact this.2
    rw [spanBare, hbare]
    rfl
  cases fuel with
  | zero => simp [readValue] at h
  | succ fuel =>
    unfold readValue at h
    rw [hstring] at h
    dsimp only at h
    split at h
    · exact hne rfl (by decide)
    · exact hne rfl (by decide)
    · rw [hspan] at h
      cases h

end Values

/-! ## Scalars -/

theorem spanBare_append {u rest : List Char} (hu : ∀ c ∈ u, isBareValue c = true)
    (hrest : EndsValue rest) : spanBare (u ++ rest) = (u, rest) := by
  unfold spanBare
  rw [span_append hu fun c hc => (hrest.head c hc).2.2]
  dsimp only
  split
  · rename_i c more _
    rw [if_neg (by simp [hrest.time c more rfl])]
  · rfl

/-- A scalar and its spelling. -/
structure Spells (written : List Char) (value : Scalar) : Prop where
  reads : ∀ depth, ReadsAs depth written (.scalar {} written value)
  clean : '\r' ∉ written

theorem spells_quote (s : String) : Spells (quote s) (.text s) where
  reads := by
    intro depth fuel rest hfuel hrest
    have hread : readString? (quote s ++ rest) = some (s.toList, rest) :=
      readString?_quote s (fun h => (hrest.head _ h).1 rfl) fun h => (hrest.head _ h).2.1 rfl
    obtain ⟨fuel, rfl⟩ : ∃ n, fuel = n + 1 := ⟨fuel - 1, by omega⟩
    rw [readValue_string hread, upTo_append, String.ofList_toList]
  clean := by
    intro h
    rcases isPlain_of_mem_quote h with hplain | hline
    · exact absurd hplain (by decide)
    · exact absurd hline (by decide)

theorem spells_bare {u : List Char} {v : Scalar} (hu : ∀ c ∈ u, isBareValue c = true)
    (hv : Scalar.ofBare? u = some v) : Spells u v where
  reads := by
    intro depth fuel rest hfuel hrest
    obtain ⟨fuel, rfl⟩ : ∃ n, fuel = n + 1 := ⟨fuel - 1, by omega⟩
    refine readValue_bare ?_ (spanBare_append hu hrest) hv
    intro c hc
    cases u with
    | nil => cases hv
    | cons d u =>
      cases hc
      exact hu c List.mem_cons_self
  clean := fun h => absurd (hu _ h) (by decide)

theorem spells_boolean (b : Bool) : Spells (Settings.booleanValue b).toList (.boolean b) := by
  cases b with
  | true => exact spells_bare (List.all_eq_true.mp (by decide)) rfl
  | false => exact spells_bare (List.all_eq_true.mp (by decide)) rfl

theorem Scalar.ofBare?_of_integer? {u : List Char} {n : Int} (h : integer? u = some n) :
    Scalar.ofBare? u = some (.integer n) := by
  have htrue : u ≠ ['t', 'r', 'u', 'e'] := by
    rintro rfl
    cases h
  have hfalse : u ≠ ['f', 'a', 'l', 's', 'e'] := by
    rintro rfl
    cases h
  rw [ofBare?, if_neg htrue, if_neg hfalse, h]

theorem spells_integer (n : Int) : Spells (Settings.integerValue n).toList (.integer n) := by
  have hdigits (m : Nat) : ∀ c ∈ Nat.toDigits 10 m, isBareValue c = true :=
    fun c hc => isBareValue_of_isDigit (Nat.isDigit_of_mem_toDigits (by decide) (by decide) hc)
  cases n with
  | ofNat m =>
    have htext : (Settings.integerValue (.ofNat m)).toList = Nat.toDigits 10 m := by
      simp [Settings.integerValue, Text.decimal]
    rw [htext]
    exact spells_bare (hdigits m) (Scalar.ofBare?_of_integer? (integer?_toDigits m))
  | negSucc m =>
    have htext : (Settings.integerValue (.negSucc m)).toList = '-' :: Nat.toDigits 10 (m + 1) := by
      simp [Settings.integerValue, Text.decimal]
    rw [htext]
    refine spells_bare ?_ (Scalar.ofBare?_of_integer? (integer?_neg_toDigits (m + 1)))
    intro c hc
    rcases List.mem_cons.mp hc with rfl | hc
    · decide
    · exact hdigits _ c hc

/-! ## Spelled-out values -/

namespace Node

def spacing : Node → Spacing
  | scalar s _ _ | array s _ _ _ => s
  | table style _ => style.spacing
  | tables _ => {}

/-- A scalar or an array without what stands around it. -/
def bare : Node → List Char
  | scalar _ written _ => written
  | array _ items comma closing =>
    '[' :: (itemsText firstItemUsual items ++ (if comma && !items.isEmpty then [','] else []) ++
      closing ++ [']'])
  | table .. | tables _ => []

mutual

/-- The value with the usual blanks spelled out. -/
def spelled : Usual → Node → Node
  | usual, scalar s written value => scalar (s.spelled usual) written value
  | usual, array s items comma closing =>
    array (s.spelled usual) (itemsSpelled firstItemUsual items) comma closing
  | _, table style entries => table style entries
  | _, tables elements => tables elements

def itemsSpelled : Usual → List Node → List Node
  | _, [] => []
  | usual, n :: ns => spelled usual n :: itemsSpelled valueUsual ns

end

/-- Scalars that read back, and arrays of such values with blanks, line ends and whole comments
between them. -/
inductive Legible : (depth : Nat) → Node → Prop where
  | scalar {depth : Nat} {s : Spacing} {written : List Char} {value : Scalar}
      (h : Spells written value) : Legible depth (.scalar s written value)
  | array {depth : Nat} {s : Spacing} {items : List Node} {comma : Bool} {closing : List Char}
      (hitems : ∀ n ∈ items, Legible depth n)
      (hspacing : ∀ n ∈ items, n.spacing.Fits Trivia Trivia) (hclosing : Trivia closing)
      (hcomma : items = [] → comma = false) (hlast : items ≠ [] → comma = false → closing = []) :
      Legible (depth + 1) (.array s items comma closing)

variable {depth : Nat} {n : Node}

theorem Legible.text_eq (h : Legible depth n) (usual : Usual) :
    n.text usual = n.spacing.around usual n.bare := by
  cases h with
  | scalar => rw [text]; rfl
  | array => rw [text]; simp [bare, spacing]

theorem Legible.spelled_eq (h : Legible depth n) (usual : Usual) :
    n.spelled usual = (n.spelled usual).withSpacing (n.spacing.spelled usual) := by
  cases h with
  | scalar => rw [spelled]; rfl
  | array => rw [spelled]; rfl

end Node

/-! ## Arrays -/

theorem startsItem_of_startsValue {c : Char} (h : startsValue c = true) :
    startsItem c = true ∧ c ≠ ']' ∧ c ≠ '}' := by
  refine ⟨?_, ?_, ?_⟩
  · by_contra hno
    have hc : c = ' ' ∨ c = '\t' ∨ c = '\n' ∨ c = '\r' ∨ c = '#' := by
      simp [startsItem, isBlank] at hno
      tauto
    rcases hc with rfl | rfl | rfl | rfl | rfl <;> exact absurd h (by decide)
  · rintro rfl
    exact absurd h (by decide)
  · rintro rfl
    exact absurd h (by decide)

section Items

variable {fuel depth : Nat} {b u a cs rest : List Char} {v : Node}

/-- A value among items, up to the mark after it. -/
theorem readItems_item (hb : Trivia b) (ha : Trivia a) (hu : ReadsAs depth u v)
    (hfuel : 2 * u.length < fuel) {c : Char} (hc : c = ',' ∨ c = ']')
    {more : Option (Listed Node × List Char)} (hmore : readItems fuel depth cs = more) :
    readItems (fuel + 1) depth (b ++ u ++ a ++ c :: cs) =
      if c = ',' then more.map fun (l, rest) => (l.push (v.withSpacing ⟨some b, some a⟩), rest)
      else some (⟨[v.withSpacing ⟨some b, some a⟩], false, []⟩, cs) := by
  have hitem : startsItem c = true := by rcases hc with rfl | rfl <;> decide
  have hend : EndsValue (a ++ c :: cs) := by
    refine ha.endsValue ?_
    rcases hc with rfl | rfl <;> exact .of_head (by decide) (by decide)
  obtain ⟨d, hd, hstarts⟩ := startsValue_of_readValue (hu fuel (a ++ c :: cs) hfuel hend)
  obtain ⟨ditem, hclose, -⟩ := startsItem_of_startsValue hstarts
  have hbefore : readTrivia (b ++ (u ++ (a ++ c :: cs))) = some (b, u ++ (a ++ c :: cs)) :=
    readTrivia_append hb ⟨d, hd, ditem⟩
  rw [List.append_assoc, List.append_assoc]
  unfold readItems
  rw [hbefore]
  simp only [Option.bind_eq_bind, Option.bind_some, hd, Option.some.injEq, hclose, if_false,
    hu fuel _ hfuel hend, readTrivia_append ha ⟨c, List.head?_cons, hitem⟩]
  rcases hc with rfl | rfl
  · show (readItems fuel depth cs).bind _ = _
    rw [hmore]
    cases more <;> rfl
  · rfl

theorem readItems_nil (hb : Trivia b) (rest : List Char) :
    readItems (fuel + 1) depth (b ++ ']' :: rest) = some (⟨[], false, b⟩, rest) := by
  unfold readItems
  rw [readTrivia_append hb ⟨_, List.head?_cons, by decide⟩]
  rfl

end Items

namespace Node

variable {depth : Nat}

theorem withSpacing_withSpacing (n : Node) (s t : Spacing) :
    (n.withSpacing s).withSpacing t = n.withSpacing t := by
  cases n <;> rfl

/-- What makes a value readable among others. -/
structure Item (depth : Nat) (n : Node) : Prop where
  legible : Legible depth n
  spacing : n.spacing.Fits Trivia Trivia
  reads : ∀ usual, ReadsAs depth n.bare ((n.spelled usual).withSpacing {})

theorem Item.readItems {n : Node} (h : Item depth n) {usual : Usual}
    (husual : Trivia usual.1 ∧ Trivia usual.2) {fuel : Nat}
    (hfuel : 2 * (n.text usual).length < fuel) {c : Char} (hc : c = ',' ∨ c = ']')
    (cs : List Char) {more : Option (Listed Node × List Char)}
    (hmore : Toml.readItems fuel depth cs = more) :
    Toml.readItems (fuel + 1) depth (n.text usual ++ c :: cs) =
      if c = ',' then more.map fun (l, rest) => (l.push (n.spelled usual), rest)
      else some (⟨[n.spelled usual], false, []⟩, cs) := by
  obtain ⟨hbefore, hafter⟩ := h.spacing.getD usual husual.1 husual.2
  have hvalue : ((n.spelled usual).withSpacing {}).withSpacing (n.spacing.spelled usual) =
      n.spelled usual := by
    rw [withSpacing_withSpacing, ← h.legible.spelled_eq]
  rw [h.legible.text_eq, Spacing.around] at hfuel ⊢
  have hbare : 2 * n.bare.length < fuel := by
    simp only [List.length_append] at hfuel
    omega
  have hitem := readItems_item hbefore hafter (h.reads usual) hbare hc hmore
  rw [show (⟨some (n.spacing.before.getD usual.1), some (n.spacing.after.getD usual.2)⟩ : Spacing) =
    n.spacing.spelled usual from rfl, hvalue] at hitem
  exact hitem

theorem trivia_firstItemUsual : Trivia firstItemUsual.1 ∧ Trivia firstItemUsual.2 := ⟨.nil, .nil⟩

theorem trivia_valueUsual : Trivia valueUsual.1 ∧ Trivia valueUsual.2 :=
  ⟨.blank (Or.inl rfl) .nil, .nil⟩

/-- Items are read off their text, up to the closing bracket. -/
theorem readItems_text {comma : Bool} {closing : List Char} (hclosing : Trivia closing)
    (hlast : comma = false → closing = []) {usual : Usual}
    (husual : Trivia usual.1 ∧ Trivia usual.2) {n : Node} {ns : List Node}
    (hitems : ∀ m ∈ n :: ns, Item depth m) {fuel : Nat}
    (hfuel : 2 * (itemsText usual (n :: ns)).length + 1 < fuel) (rest : List Char) :
    Toml.readItems fuel depth (itemsText usual (n :: ns) ++ ((if comma then [','] else []) ++
      (closing ++ ']' :: rest))) = some (⟨itemsSpelled usual (n :: ns), comma, closing⟩, rest) := by
  have hn := hitems n List.mem_cons_self
  -- one step for the item and one for what follows it; the items after it come with a comma each
  obtain ⟨fuel, rfl⟩ : ∃ f, fuel = f + 2 := ⟨fuel - 2, by omega⟩
  induction ns generalizing n usual fuel with
  | nil =>
    have htext : itemsText usual [n] = n.text usual := by
      simp [itemsText]
    rw [htext] at hfuel ⊢
    rw [itemsSpelled, itemsSpelled]
    cases comma with
    | true =>
      exact hn.readItems husual (by omega) (Or.inl rfl) _ (readItems_nil hclosing rest)
    | false =>
      rw [hlast rfl]
      exact hn.readItems husual (by omega) (Or.inr rfl) rest rfl
  | cons m ns ih =>
    have hm := hitems m (List.mem_cons_of_mem _ List.mem_cons_self)
    have htext : itemsText usual (n :: m :: ns) =
        n.text usual ++ ',' :: itemsText valueUsual (m :: ns) := by
      rw [itemsText]
      simp
    rw [htext] at hfuel ⊢
    simp only [List.length_append, List.length_cons] at hfuel
    obtain ⟨fuel, rfl⟩ : ∃ f, fuel = f + 1 := ⟨fuel - 1, by omega⟩
    have hmore := ih trivia_valueUsual
      (fun k hk => hitems k (List.mem_cons_of_mem _ hk)) hm fuel (by omega)
    have hpush : Listed.push (n.spelled usual) ⟨itemsSpelled valueUsual (m :: ns), comma, closing⟩ =
        ⟨itemsSpelled usual (n :: m :: ns), comma, closing⟩ := by
      simp [Listed.push, itemsSpelled]
    rw [List.append_assoc, List.cons_append, ← hpush]
    exact hn.readItems husual (by omega) (Or.inl rfl) _ hmore

/-- A legible value is read off its text. -/
theorem Legible.reads {n : Node} (h : Legible depth n) (usual : Usual) :
    ReadsAs depth n.bare ((n.spelled usual).withSpacing {}) := by
  induction h generalizing usual with
  | scalar h =>
    rw [spelled]
    exact h.reads _
  | @array depth s items comma closing hitems hspacing hclosing hcomma hlast ih =>
    intro fuel rest hfuel hrest
    -- the items read by the induction, which leaves the brackets and what stands between the items
    have hitem : ∀ m ∈ items, Item depth m :=
      fun m hm => ⟨hitems m hm, hspacing m hm, ih m hm⟩
    rw [spelled]
    obtain ⟨fuel, rfl⟩ : ∃ f, fuel = f + 2 := ⟨fuel - 2, by
      simp only [bare, List.length_cons] at hfuel
      omega⟩
    cases items with
    | nil =>
      cases hcomma rfl
      have htext : (Node.array s [] false closing).bare ++ rest =
          '[' :: (closing ++ ']' :: rest) := by
        simp [bare, itemsText]
      rw [htext]
      exact readValue_array (readItems_nil hclosing rest)
    | cons m ms =>
      have htext : (Node.array s (m :: ms) comma closing).bare ++ rest =
          '[' :: (itemsText firstItemUsual (m :: ms) ++ ((if comma then [','] else []) ++
            (closing ++ ']' :: rest))) := by
        simp [bare]
      have hlength : (itemsText firstItemUsual (m :: ms)).length <
          (Node.array s (m :: ms) comma closing).bare.length := by
        simp only [bare, List.length_cons, List.length_append]
        omega
      rw [htext]
      exact readValue_array (readItems_text hclosing (hlast (List.cons_ne_nil _ _))
        trivia_firstItemUsual hitem (by omega) rest)

/-! ## Carriage returns -/

theorem clean_itemsText {items : List Node}
    (h : ∀ n ∈ items, ∀ usual, '\r' ∉ usual.1 ∧ '\r' ∉ usual.2 → '\r' ∉ n.text usual)
    {usual : Usual} (husual : '\r' ∉ usual.1 ∧ '\r' ∉ usual.2) :
    '\r' ∉ itemsText usual items := by
  induction items generalizing usual with
  | nil => simp [itemsText]
  | cons n ns ih =>
    have hn := h n List.mem_cons_self usual husual
    have hns := ih (fun m hm => h m (List.mem_cons_of_mem _ hm))
      (show '\r' ∉ valueUsual.1 ∧ '\r' ∉ valueUsual.2 by decide)
    rw [itemsText]
    simp only [List.mem_append, not_or, hn, hns, not_false_eq_true, and_true, true_and]
    split <;> simp

theorem Legible.clean {n : Node} (h : Legible depth n) : '\r' ∉ n.bare := by
  induction h with
  | scalar h => exact h.clean
  | @array depth s items comma closing hitems hspacing hclosing _ _ ih =>
    have htext : '\r' ∉ itemsText firstItemUsual items := by
      refine clean_itemsText (fun n hn usual husual => ?_) (by decide)
      rw [(hitems n hn).text_eq]
      exact (hspacing n hn).clean (fun _ => Trivia.clean) (fun _ => Trivia.clean) usual husual
        (ih n hn)
    simp [bare, htext, hclosing.clean]

end Node

/-! ## Spelled-out values are the same values -/

namespace Node

variable {depth : Nat} {n : Node}

theorem Legible.spacing_spelled (h : Legible depth n) (usual : Usual) :
    (n.spelled usual).spacing = n.spacing.spelled usual := by
  cases h with
  | scalar => rw [spelled]; rfl
  | array => rw [spelled]; rfl

theorem mem_itemsSpelled {items : List Node} {usual : Usual} {m : Node}
    (h : m ∈ itemsSpelled usual items) :
    ∃ n ∈ items, ∃ u ∈ [usual, valueUsual], m = n.spelled u := by
  induction items generalizing usual with
  | nil => simp [itemsSpelled] at h
  | cons n ns ih =>
    rw [itemsSpelled] at h
    rcases List.mem_cons.mp h with rfl | h
    · exact ⟨n, List.mem_cons_self, usual, List.mem_cons_self, rfl⟩
    · obtain ⟨n, hn, u, hu, rfl⟩ := ih h
      refine ⟨n, List.mem_cons_of_mem _ hn, u, ?_, rfl⟩
      simp only [List.mem_cons, List.not_mem_nil, or_false, or_self] at hu
      simp [hu]

theorem Legible.spelled (h : Legible depth n) (usual : Usual) : Legible depth (n.spelled usual) := by
  induction h generalizing usual with
  | scalar h =>
    rw [Node.spelled]
    exact .scalar h
  | @array depth s items comma closing hitems hspacing hclosing hcomma hlast ih =>
    have hnil : itemsSpelled firstItemUsual items = [] ↔ items = [] := by
      cases items <;> simp [itemsSpelled]
    rw [Node.spelled]
    refine .array ?_ ?_ hclosing (fun h => hcomma (hnil.mp h))
      fun h => hlast fun hitems => h (hnil.mpr hitems)
    · intro m hm
      obtain ⟨n, hn, u, -, rfl⟩ := mem_itemsSpelled hm
      exact ih n hn u
    · intro m hm
      obtain ⟨n, hn, u, hu, rfl⟩ := mem_itemsSpelled hm
      rw [(hitems n hn).spacing_spelled]
      have husual : Trivia u.1 ∧ Trivia u.2 := by
        rcases List.mem_pair.mp hu with rfl | rfl
        · exact trivia_firstItemUsual
        · exact trivia_valueUsual
      exact (hspacing n hn).spelled husual.1 husual.2

theorem scalar?_spelled (n : Node) (usual : Usual) : (n.spelled usual).scalar? = n.scalar? := by
  cases n <;> rw [Node.spelled]
  all_goals rfl

theorem mapM_itemsSpelled {α : Type} {f : Node → Option α}
    (hf : ∀ n usual, f (n.spelled usual) = f n) (usual : Usual) (items : List Node) :
    (itemsSpelled usual items).mapM f = items.mapM f := by
  induction items generalizing usual with
  | nil => rw [itemsSpelled]
  | cons n ns ih => rw [itemsSpelled, List.mapM_cons, List.mapM_cons, hf, ih]

theorem decodeText_spelled (n : Node) (usual : Usual) :
    Settings.Decoder.text (n.spelled usual) = Settings.Decoder.text n := by
  rw [Settings.Decoder.text, scalar?_spelled]
  rfl

theorem decodeTexts_spelled (n : Node) (usual : Usual) :
    Settings.Decoder.texts (n.spelled usual) = Settings.Decoder.texts n := by
  cases n with
  | array s items comma closing =>
    rw [spelled]
    exact mapM_itemsSpelled decodeText_spelled firstItemUsual items
  | scalar => rw [spelled]; rfl
  | table => rw [spelled]
  | tables => rw [spelled]

end Node

end DnsGate.Toml
