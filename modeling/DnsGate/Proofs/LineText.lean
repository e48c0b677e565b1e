import DnsGate.Proofs.ValueText

/-!
Lines that are written and read back: pairs and the headers of tables.  A line with a legible pair
or header adds just that to what is read of the rest (`LegiblePair.outlines`,
`LegibleHeader.outlines`).
-/

namespace DnsGate.Toml

/-! ## Keys -/

/-- A key that is read off its spelling. -/
structure Key.Legible (k : Key) : Prop where
  reads : ∀ rest, (∀ c, rest.head? = some c → isBareKey c = false) →
    readKey (k.written ++ rest) = some ({ name := k.name, written := k.written }, rest)
  clean : '\r' ∉ k.written

/-- A key with the usual blanks around it spelled out. -/
def Key.spelled (usual : Usual) (k : Key) : Key :=
  { k with outer := k.outer.spelled usual, inner := ⟨some [], some []⟩ }

theorem Key.legible_plain {name : String} (hsome : name.toList ≠ [])
    (hbare : ∀ c ∈ name.toList, isBareKey c = true) (outer inner : Spacing) :
    Key.Legible ⟨name, name.toList, outer, inner⟩ where
  reads := by
    intro rest hrest
    have hhead : ∀ c, (name.toList ++ rest).head? = some c → isBareKey c = true := by
      intro c hc
      cases hname : name.toList with
      | nil => exact absurd hname hsome
      | cons d cs =>
        rw [hname] at hc
        cases hc
        exact hbare c (hname ▸ List.mem_cons_self)
    have hquoted : readQuoted? (name.toList ++ rest) = none := by
      refine readQuoted?_eq_none fun c hc => ⟨?_, ?_⟩
      · rintro rfl
        exact absurd (hhead _ hc) (by decide)
      · rintro rfl
        exact absurd (hhead _ hc) (by decide)
    have hspan := span_append hbare hrest
    unfold readKey
    rw [hquoted]
    simp only [hspan]
    rw [if_neg (by simpa using hsome), String.ofList_toList]
  clean := fun h => absurd (hbare _ h) (by decide)

/-- How a key may start. -/
def startsKey (c : Char) : Bool := c == '"' || c == '\'' || isBareKey c

theorem startsKey_of_readKey {cs rest : List Char} {k : Key} (h : readKey cs = some (k, rest)) :
    ∃ c, cs.head? = some c ∧ startsKey c = true := by
  by_contra hno
  have hhead : ∀ c, cs.head? = some c → c ≠ '"' ∧ c ≠ '\'' ∧ isBareKey c = false := by
    intro c hc
    have hstarts : startsKey c = false := by
      by_contra hstarts
      exact hno ⟨c, hc, by simpa using hstarts⟩
    simpa [startsKey, and_assoc] using hstarts
  have hspan : cs.span isBareKey = ([], cs) :=
    span_append (u := []) (fun _ h => absurd h List.not_mem_nil) fun c hc => (hhead c hc).2.2
  unfold readKey at h
  rw [readQuoted?_eq_none fun c hc => ⟨(hhead c hc).1, (hhead c hc).2.1⟩] at h
  simp only [hspan] at h
  cases h

theorem startsItem_of_startsKey {c : Char} (h : startsKey c = true) :
    startsItem c = true ∧ c ≠ '[' := by
  constructor
  · refine (startsItem_of_startsValue ?_).1
    simp only [startsKey, isBareKey, Bool.or_eq_true] at h
    simp only [startsValue, isBareValue, Bool.or_eq_true]
    tauto
  · rintro rfl
    exact absurd h (by decide)

theorem Key.Legible.head {k : Key} (hk : k.Legible) :
    ∃ c, k.written.head? = some c ∧ startsItem c = true ∧ c ≠ '[' := by
  have hread := hk.reads [] fun c hc => by cases hc
  rw [List.append_nil] at hread
  obtain ⟨c, hc, hstarts⟩ := startsKey_of_readKey hread
  exact ⟨c, hc, startsItem_of_startsKey hstarts⟩

section Keys

variable {k : Key} {a : List Char}

theorem Key.Legible.readKeys (hk : k.Legible) (ha : Blanks a) {c : Char}
    (hc : isBlank c = false ∧ isBareKey c = false ∧ c ≠ '.') (cs : List Char) (fuel : Nat) :
    readKeys (fuel + 1) [] (k.written ++ (a ++ c :: cs)) =
      some (([], { name := k.name, written := k.written, inner := ⟨some [], some []⟩ }),
        a ++ c :: cs) := by
  have hhead : ∀ d, (a ++ c :: cs).head? = some d → isBareKey d = false := by
    intro d hd
    cases a with
    | nil =>
      cases hd
      exact hc.2.1
    | cons e a =>
      cases hd
      rcases isBlank_iff.mp (ha d List.mem_cons_self) with rfl | rfl <;> decide
  have hblanks : spanBlanks (a ++ c :: cs) = (a, c :: cs) :=
    spanBlanks_append ha fun d hd => by cases hd; exact hc.1
  unfold Toml.readKeys
  rw [hk.reads _ hhead]
  simp only [Option.bind_eq_bind, Option.bind_some, hblanks]
  split
  · rename_i heq
    exact absurd (List.cons.inj heq).1 hc.2.2
  · rfl

end Keys

/-! ## Pairs -/

/-- A pair that is read off a line of its own. -/
structure LegiblePair (e : Key × Node) : Prop where
  key : e.1.Legible
  keySpacing : e.1.outer.Fits Trivia Blanks
  value : e.2.Legible maxDepth
  valueSpacing : e.2.spacing.Fits Blanks LineEnd

/-- A pair of a key without dots. -/
def Pair.ofEntry (e : Key × Node) : Pair := ⟨[], e.1, e.2⟩

/-- A pair with the usual blanks spelled out. -/
def spelledPair (e : Key × Node) : Key × Node := (e.1.spelled lineKeyUsual, e.2.spelled valueUsual)

/-- The line of a pair. -/
def pairLine (e : Key × Node) : List Char :=
  keysText lineKeyUsual [e.1] ++ '=' :: e.2.text valueUsual ++ ['\n']

theorem keysText_one (usual : Usual) (k : Key) :
    keysText usual [k] = k.outer.around usual k.written := by
  simp [keysText, keyTail]

theorem LegiblePair.readPair {e : Key × Node} (h : LegiblePair e) {a v : List Char}
    (ha : Blanks a) (hv : Blanks v) {fuel : Nat} (hfuel : 2 * e.2.bare.length < fuel)
    {rest : List Char} (hrest : EndsValue rest) (before : List Char) :
    ∃ pair, Toml.readPair (fuel + 1) maxDepth before
        (e.1.written ++ (a ++ '=' :: (v ++ (e.2.bare ++ rest)))) = some (pair, rest) ∧
      ∀ after, pair after =
        ⟨[], { e.1 with outer := ⟨some before, some a⟩, inner := ⟨some [], some []⟩ },
          (e.2.spelled valueUsual).withSpacing ⟨some v, some after⟩⟩ := by
  have hvalue := h.value.reads valueUsual fuel rest hfuel hrest
  have hhead : ∀ c, (e.2.bare ++ rest).head? = some c → isBlank c = false := by
    intro c hc
    obtain ⟨d, hd, hstarts⟩ := startsValue_of_readValue hvalue
    cases hd.symm.trans hc
    have hitem := (startsItem_of_startsValue hstarts).1
    simp only [startsItem, Bool.and_eq_true, Bool.not_eq_true'] at hitem
    exact hitem.1.1.1
  have hkeys := h.key.readKeys ha (c := '=') (by decide) (v ++ (e.2.bare ++ rest))
  have hafter : spanBlanks (a ++ '=' :: (v ++ (e.2.bare ++ rest))) =
      (a, '=' :: (v ++ (e.2.bare ++ rest))) :=
    spanBlanks_append ha fun c hc => by cases hc; decide
  have hgap := spanBlanks_append hv hhead
  unfold Toml.readPair
  rw [hkeys]
  simp only [Option.bind_eq_bind, Option.bind_some, hafter, hgap, hvalue]
  refine ⟨_, rfl, fun after => ?_⟩
  rw [Node.withSpacing_withSpacing]
  rfl

theorem LegiblePair.clean {e : Key × Node} (h : LegiblePair e) : '\r' ∉ pairLine e := by
  have hkey := h.keySpacing.clean (fun _ => Trivia.clean) (fun _ => Blanks.clean)
    lineKeyUsual (by decide) h.key.clean
  have hvalue := h.valueSpacing.clean (fun _ => Blanks.clean) (fun _ => LineEnd.clean)
    valueUsual (by decide) h.value.clean
  simp [pairLine, keysText_one, h.value.text_eq, hkey, hvalue]

/-! ## Outlines -/

/-- A text is read as an outline. -/
def Outlines (cs : List Char) (o : Outline) : Prop :=
  ∀ fuel, cs.length < fuel → readOutline fuel cs = some o

section Outlines

variable {cs : List Char} {o : Outline}

theorem outlines_closing (hclosing : afterTrivia? false cs = some []) :
    Outlines cs ⟨[], [], cs⟩ := by
  intro fuel hfuel
  obtain ⟨fuel, rfl⟩ : ∃ f, fuel = f + 1 := ⟨fuel - 1, by omega⟩
  have htrivia : readTrivia cs = some (cs, []) := by
    have hall : upTo [] cs = cs := by
      simp [upTo]
    rw [readTrivia, hclosing, Option.map_some, hall]
  unfold readOutline
  rw [htrivia]
  rfl

theorem readOutline_pair {before line : List Char} {fuel : Nat}
    (htrivia : readTrivia cs = some (before, line))
    (hhead : ∃ c, line.head? = some c ∧ c ≠ '[') :
    readOutline (fuel + 1) cs = (readPair (stepsFor line) maxDepth before line).bind
      fun (pair, cs) => (readLineEnd cs).bind fun (after, cs) =>
        (readOutline fuel cs).bind fun rest =>
          some { rest with pairs := pair after :: rest.pairs } := by
  obtain ⟨c, hc, hbracket⟩ := hhead
  conv_lhs => unfold readOutline
  rw [htrivia]
  cases line with
  | nil => cases hc
  | cons d ds =>
    cases hc
    simp only [Option.bind_eq_bind, Option.bind_some]
    split
    · rename_i heq
      cases heq
    · rename_i heq
      exact absurd (List.cons.inj heq).1 hbracket
    · rfl

theorem LegiblePair.outlines {e : Key × Node} (h : LegiblePair e) (ho : Outlines cs o) :
    Outlines (pairLine e ++ cs)
      { o with pairs := .ofEntry (spelledPair e) :: o.pairs } := by
  obtain ⟨hbefore, hblanks⟩ := h.keySpacing.getD lineKeyUsual .nil blanks_one
  obtain ⟨hgap, hend⟩ := h.valueSpacing.getD valueUsual blanks_one (.blanks blanks_nil)
  intro fuel hfuel
  obtain ⟨fuel, rfl⟩ : ∃ f, fuel = f + 1 := ⟨fuel - 1, by omega⟩
  have htext : pairLine e ++ cs = e.1.outer.before.getD lineKeyUsual.1 ++
      (e.1.written ++ (e.1.outer.after.getD lineKeyUsual.2 ++ '=' ::
        (e.2.spacing.before.getD valueUsual.1 ++ (e.2.bare ++
          (e.2.spacing.after.getD valueUsual.2 ++ '\n' :: cs))))) := by
    simp [pairLine, keysText_one, h.value.text_eq, Spacing.around]
  obtain ⟨c, hc, hitem, hbracket⟩ := h.key.head
  have hhead (rest : List Char) : (e.1.written ++ rest).head? = some c := by
    rw [List.head?_append, hc]
    rfl
  rw [htext] at hfuel ⊢
  simp only [List.length_append, List.length_cons] at hfuel
  -- the steps for a pair are counted on its line, which is longer than its value
  obtain ⟨pair, hread, hpair⟩ := h.readPair hblanks hgap
    (show 2 * e.2.bare.length < 2 * (e.1.written ++ (e.1.outer.after.getD lineKeyUsual.2 ++ '=' ::
        (e.2.spacing.before.getD valueUsual.1 ++ (e.2.bare ++
          (e.2.spacing.after.getD valueUsual.2 ++ '\n' :: cs))))).length + 1 by
      simp only [List.length_append, List.length_cons]
      omega)
    (hend.endsValue cs) (e.1.outer.before.getD lineKeyUsual.1)
  rw [readOutline_pair (readTrivia_append hbefore ⟨c, hhead _, hitem⟩) ⟨c, hhead _, hbracket⟩]
  rw [stepsFor, hread]
  simp only [Option.bind_some, hend.reads cs, ho fuel (by omega), hpair]
  conv_rhs => rw [Pair.ofEntry, spelledPair, h.value.spelled_eq]
  rfl

theorem outlines_pairs {es : Entries} (hes : ∀ e ∈ es, LegiblePair e) (ho : Outlines cs o) :
    Outlines (es.flatMap pairLine ++ cs)
      { o with pairs := (es.map spelledPair).map .ofEntry ++ o.pairs } := by
  induction es with
  | nil => exact ho
  | cons e es ih =>
    rw [List.flatMap_cons, List.append_assoc]
    exact (hes e List.mem_cons_self).outlines (ih fun d hd => hes d (List.mem_cons_of_mem _ hd))

/-! ## Headers -/

/-- The usual blanks around a header: all but the first one follow an empty line. -/
def headerUsual (first : Bool) : Usual := (if first then [] else ['\n'], [])

theorem trivia_headerUsual (first : Bool) : Trivia (headerUsual first).1 := by
  cases first with
  | true => exact .nil
  | false => exact .blank (Or.inr rfl) .nil

/-- The usual blanks around the key of a header. -/
def headerKeyUsual : Usual := ([], [])

/-- The line of a header; `first` as long as nothing is written. -/
def headerText (first : Bool) (k : Key) (spacing : Spacing) : List Char :=
  spacing.around (headerUsual first) ('[' :: keysText headerKeyUsual [k] ++ [']']) ++ ['\n']

/-- What may stand around a header. -/
structure LegibleHeader (k : Key) (spacing : Spacing) : Prop where
  key : k.Legible
  keySpacing : k.outer.Fits Blanks Blanks
  spacing : spacing.Fits Trivia LineEnd

theorem readHeader_table {k : Key} (hk : k.Legible) {b a after : List Char} (hb : Blanks b)
    (ha : Blanks a) (hafter : LineEnd after) (before : List Char) :
    readHeader before (b ++ (k.written ++ (a ++ ']' :: (after ++ '\n' :: cs)))) =
      some (⟨false, [], { k with outer := ⟨some b, some a⟩, inner := ⟨some [], some []⟩ },
        ⟨some before, some after⟩⟩, cs) := by
  obtain ⟨c, hc, hitem, hbracket⟩ := hk.head
  have hblank : isBlank c = false := by
    simp only [startsItem, Bool.and_eq_true, Bool.not_eq_true'] at hitem
    exact hitem.1.1.1
  obtain ⟨ds, hds⟩ := List.head?_eq_some_iff.mp hc
  -- two brackets would open an element of an array of tables
  have hsingle : ∀ more, b ++ (k.written ++ (a ++ ']' :: (after ++ '\n' :: cs))) ≠ '[' :: more := by
    intro more heq
    cases b with
    | nil =>
      rw [List.nil_append, hds] at heq
      exact hbracket (List.cons.inj heq).1
    | cons d b =>
      exact absurd (hb d List.mem_cons_self) (by rw [(List.cons.inj heq).1]; decide)
  have hfirst : spanBlanks (b ++ (k.written ++ (a ++ ']' :: (after ++ '\n' :: cs)))) =
      (b, k.written ++ (a ++ ']' :: (after ++ '\n' :: cs))) := by
    refine spanBlanks_append hb fun d hd => ?_
    rw [hds] at hd
    cases hd
    exact hblank
  have hlast : spanBlanks (a ++ ']' :: (after ++ '\n' :: cs)) =
      (a, ']' :: (after ++ '\n' :: cs)) :=
    spanBlanks_append ha fun d hd => by cases hd; decide
  have hkeys := hk.readKeys ha (c := ']') (by decide) (after ++ '\n' :: cs)
  unfold readHeader
  split
  · rename_i repeated rest heq
    split at heq
    · rename_i hcs
      exact absurd hcs (hsingle _)
    · cases heq
      simp only [hfirst, Option.bind_eq_bind, hkeys, Option.bind_some, hlast]
      simp only [hafter.reads cs]
      rfl

theorem readOutline_header {before line : List Char} {fuel : Nat}
    (htrivia : readTrivia cs = some (before, '[' :: line)) :
    readOutline (fuel + 1) cs = (readHeader before line).bind fun (header, cs) =>
      (readOutline fuel cs).bind fun rest =>
        some { rest with pairs := [], sections := ⟨header, rest.pairs⟩ :: rest.sections } := by
  conv_lhs => unfold readOutline
  rw [htrivia]
  rfl

theorem LegibleHeader.outlines {k : Key} {spacing : Spacing} (h : LegibleHeader k spacing)
    (first : Bool) (ho : Outlines cs o) :
    Outlines (headerText first k spacing ++ cs) ⟨[],
      ⟨⟨false, [], k.spelled headerKeyUsual, spacing.spelled (headerUsual first)⟩, o.pairs⟩ ::
        o.sections, o.closing⟩ := by
  obtain ⟨hbefore, hafter⟩ :=
    h.spacing.getD (headerUsual first) (trivia_headerUsual first) (.blanks blanks_nil)
  obtain ⟨hkeyBefore, hkeyAfter⟩ :=
    h.keySpacing.getD headerKeyUsual blanks_nil blanks_nil
  have htext : headerText first k spacing ++ cs = spacing.before.getD (headerUsual first).1 ++
      '[' :: (k.outer.before.getD headerKeyUsual.1 ++ (k.written ++
        (k.outer.after.getD headerKeyUsual.2 ++ ']' ::
          (spacing.after.getD (headerUsual first).2 ++ '\n' :: cs)))) := by
    simp [headerText, keysText_one, Spacing.around]
  intro fuel hfuel
  obtain ⟨fuel, rfl⟩ : ∃ f, fuel = f + 1 := ⟨fuel - 1, by omega⟩
  rw [htext] at hfuel ⊢
  simp only [List.length_append, List.length_cons] at hfuel
  rw [readOutline_header (readTrivia_append hbefore ⟨_, List.head?_cons, by decide⟩),
    readHeader_table h.key hkeyBefore hkeyAfter hafter]
  simp only [Option.bind_some, ho fuel (by omega)]
  rfl

end Outlines

end DnsGate.Toml
