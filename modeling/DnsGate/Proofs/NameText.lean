import DnsGate.Dns.Name
import DnsGate.Proofs.PlainText

/-!
The text of a name tells its labels.  `readText` takes the escapes back, also if the text has lost
its last dot twice, be that dot the end of the last label or a byte of it, so that what is kept of a
name without its dots and its case stands for one name up to case (`readText_dropDots`,
`asciiChars_fold`).
-/

namespace DnsGate.Dns.Name

/-! ## Reading text -/

/-- The byte that three octal digits write. -/
def octalByte (c d e : Char) : UInt8 :=
  UInt8.ofNat ((c.toNat - 48) * 64 + (d.toNat - 48) * 8 + (e.toNat - 48))

/-- The bytes of a text, `none` at the end of every label.  A backslash that nothing follows is what
is left of an escaped dot. -/
def readText : List Char → List (Option UInt8)
  | [] => []
  | ['\\'] => [some 0x2E]
  | '.' :: cs => none :: readText cs
  | '\\' :: c :: cs =>
    if c.isDigit then
      match cs with
      | d :: e :: cs => some (octalByte c d e) :: readText cs
      | _ => []
    else some (UInt8.ofNat c.toNat) :: readText cs
  | c :: cs => some (UInt8.ofNat c.toNat) :: readText cs

/-- Whether a text is an escape of a byte or the byte itself. -/
def isTextOf (b : UInt8) : List Char → Bool
  | [c] => decide (c ≠ '\\' ∧ c ≠ '.' ∧ UInt8.ofNat c.toNat = b)
  | ['\\', c] => decide (c.isDigit = false ∧ UInt8.ofNat c.toNat = b)
  | ['\\', c, d, e] => decide (c.isDigit = true ∧ octalByte c d e = b)
  | _ => false

/-- What holds of the bytes one by one holds of every byte. -/
theorem forall_byte {P : UInt8 → Prop} (h : ∀ n < 256, P (UInt8.ofNat n)) (b : UInt8) : P b := by
  rw [← UInt8.ofNat_toNat (x := b)]
  exact h _ b.toNat_lt

theorem isTextOf_byteText (first : Bool) (b : UInt8) : isTextOf b (byteText first b) = true := by
  revert first
  exact forall_byte (P := fun b => ∀ first, isTextOf b (byteText first b) = true)
    (by decide +kernel) b

theorem readText_literal {c : Char} (hslash : c ≠ '\\') (hdot : c ≠ '.') (cs : List Char) :
    readText (c :: cs) = some (UInt8.ofNat c.toNat) :: readText cs := by
  rw [readText.eq_def]
  split
  · rename_i h; cases h
  · rename_i h; exact absurd (List.cons.inj h).1 hslash
  · rename_i h; exact absurd (List.cons.inj h).1 hdot
  · rename_i h; exact absurd (List.cons.inj h).1 hslash
  · rename_i h
    cases h
    rfl

/-- Reading a byte's text reads the byte. -/
theorem readText_of_isTextOf {b : UInt8} {cs : List Char} (h : isTextOf b cs = true)
    (rest : List Char) : readText (cs ++ rest) = some b :: readText rest := by
  unfold isTextOf at h
  split at h
  · obtain ⟨hslash, hdot, rfl⟩ := of_decide_eq_true h
    exact readText_literal hslash hdot rest
  · obtain ⟨hdigit, rfl⟩ := of_decide_eq_true h
    show readText ('\\' :: _ :: rest) = _
    rw [readText.eq_def]
    exact if_neg (by simp [hdigit])
  · obtain ⟨hdigit, rfl⟩ := of_decide_eq_true h
    show readText ('\\' :: _ :: _ :: _ :: rest) = _
    rw [readText, if_pos hdigit]
  · cases h

theorem readText_byteText (first : Bool) (b : UInt8) (rest : List Char) :
    readText (byteText first b ++ rest) = some b :: readText rest :=
  readText_of_isTextOf (isTextOf_byteText first b) rest

theorem readText_flatMap (bs : Bytes) (rest : List Char) :
    readText (bs.flatMap (byteText false) ++ rest) = bs.map some ++ readText rest := by
  induction bs with
  | nil => rfl
  | cons b bs ih =>
    rw [List.flatMap_cons, List.append_assoc, readText_byteText, ih]
    rfl

theorem readText_labelText (l : Label) (rest : List Char) :
    readText (labelText l ++ rest) = l.map some ++ readText rest := by
  cases l with
  | nil => rfl
  | cons b bs =>
    rw [labelText, List.append_assoc, readText_byteText, readText_flatMap]
    rfl

/-- The bytes of labels, `none` at the end of every label. -/
def spelt (ls : List Label) : List (Option UInt8) := ls.flatMap fun l => l.map some ++ [none]

theorem readText_labels (ls : List Label) (rest : List Char) :
    readText (ls.flatMap (fun l => labelText l ++ ['.']) ++ rest) = spelt ls ++ readText rest := by
  induction ls with
  | nil => rfl
  | cons l ls ih =>
    rw [List.flatMap_cons, List.append_assoc, List.append_assoc, readText_labelText,
      List.singleton_append, readText, ih]
    simp [spelt]

/-! ## Without dots at the end -/

theorem byteText_ne_nil (first : Bool) (b : UInt8) : byteText first b ≠ [] := by
  intro h
  have htext := isTextOf_byteText first b
  rw [h] at htext
  cases htext

theorem readText_dropLast_byteText (first : Bool) (b : UInt8) :
    readText (Text.dropLastOne '.' (byteText first b)) = [some b] := by
  revert first
  exact forall_byte (P := fun b => ∀ first,
    readText (Text.dropLastOne '.' (byteText first b)) = [some b]) (by decide +kernel) b

/-- A text that has lost a dot at its end, if there was one, twice. -/
def dropDots (cs : List Char) : List Char := Text.dropLastOne '.' (Text.dropLastOne '.' cs)

/-- The text of a label ends in that of its last byte, and the bytes before that are read from what
stands before it. -/
theorem exists_labelText_concat (bs : Bytes) (b : UInt8) :
    ∃ cs first, labelText (bs ++ [b]) = cs ++ byteText first b ∧
      ∀ rest, readText (cs ++ rest) = bs.map some ++ readText rest := by
  cases bs with
  | nil => exact ⟨[], true, by simp [labelText], fun _ => rfl⟩
  | cons b' bs =>
    exact ⟨labelText (b' :: bs), false, by simp [labelText], readText_labelText (b' :: bs)⟩

/-- The last byte of a label is read even if its text loses a dot. -/
theorem readText_dropLast_labelText {l : Label} (h : l ≠ []) :
    labelText l ≠ [] ∧ readText (Text.dropLastOne '.' (labelText l)) = l.map some := by
  obtain rfl | ⟨bs, b, rfl⟩ := l.eq_nil_or_concat'
  · exact absurd rfl h
  obtain ⟨cs, first, htext, hread⟩ := exists_labelText_concat bs b
  have hne := byteText_ne_nil first b
  rw [htext]
  refine ⟨fun h => hne (List.append_eq_nil_iff.mp h).2, ?_⟩
  rw [Text.dropLastOne_append _ _ hne, hread, readText_dropLast_byteText, List.map_append]
  rfl

/-- A name is read from its text without the last dot twice, but for the end of its last label. -/
theorem readText_dropDots {n : Name} (h : ∀ l ∈ n.labels, l ≠ []) :
    readText (dropDots n.asciiChars) = (spelt n.labels).dropLast := by
  obtain ⟨labels⟩ := n
  obtain rfl | ⟨ls, l, rfl⟩ := labels.eq_nil_or_concat'
  · decide
  have hl : l ≠ [] := h l (by simp)
  obtain ⟨hne, hread⟩ := readText_dropLast_labelText hl
  have htext : asciiChars ⟨ls ++ [l]⟩ =
      ls.flatMap (fun l => labelText l ++ ['.']) ++ labelText l ++ ['.'] := by
    simp [asciiChars]
  have hdot : Text.dropLastOne '.' ['.'] = [] := rfl
  rw [dropDots, htext, Text.dropLastOne_append _ _ (List.cons_ne_nil _ _), hdot, List.append_nil,
    Text.dropLastOne_append _ _ hne, readText_labels, hread]
  simp [spelt]

/-! ## One text, one name -/

theorem spelt_inj {ls ms : List Label} (h : spelt ls = spelt ms) : ls = ms := by
  have hcut : ∀ {l m : Label} {xs ys : List (Option UInt8)},
      l.map some ++ none :: xs = m.map some ++ none :: ys → l = m ∧ xs = ys := by
    intro l m xs ys h
    induction l generalizing m with
    | nil =>
      cases m with
      | nil => exact ⟨rfl, (List.cons.inj h).2⟩
      | cons b m => cases h
    | cons b l ih =>
      cases m with
      | nil => cases h
      | cons b' m =>
        obtain ⟨hb, hrest⟩ := List.cons.inj h
        obtain ⟨rfl, hxs⟩ := ih hrest
        exact ⟨congrArg (· :: l) (Option.some.inj hb), hxs⟩
  induction ls generalizing ms with
  | nil =>
    cases ms with
    | nil => rfl
    | cons m ms => simp [spelt] at h
  | cons l ls ih =>
    cases ms with
    | nil => simp [spelt] at h
    | cons m ms =>
      have h' : l.map some ++ none :: spelt ls = m.map some ++ none :: spelt ms := by
        simpa [spelt] using h
      obtain ⟨rfl, hrest⟩ := hcut h'
      rw [ih hrest]

/-- Labels that are not empty are told by what stands before the end of the last one. -/
theorem spelt_dropLast_inj {ls ms : List Label} (hl : ∀ l ∈ ls, l ≠ []) (hm : ∀ l ∈ ms, l ≠ [])
    (h : (spelt ls).dropLast = (spelt ms).dropLast) : ls = ms := by
  have hend : ∀ {ls : List Label}, ls ≠ [] → spelt ls = (spelt ls).dropLast ++ [none] := by
    intro ls hne
    obtain rfl | ⟨ls, l, rfl⟩ := ls.eq_nil_or_concat'
    · exact absurd rfl hne
    · simp [spelt]
  have hnil : ∀ {ls : List Label}, (∀ l ∈ ls, l ≠ []) → (spelt ls).dropLast = [] → ls = [] := by
    intro ls hls hempty
    cases ls with
    | nil => rfl
    | cons l ls =>
      have hspelt := hend (List.cons_ne_nil l ls)
      rw [hempty] at hspelt
      have hl := hls l List.mem_cons_self
      cases l with
      | nil => exact absurd rfl hl
      | cons b l => simp [spelt] at hspelt
  by_cases hls : ls = []
  · subst hls
    exact (hnil hm h.symm).symm
  · by_cases hms : ms = []
    · subst hms
      exact hnil hl h
    · apply spelt_inj
      rw [hend hls, hend hms, h]

theorem dropDots_inj {m n : Name} (hm : ∀ l ∈ m.labels, l ≠ []) (hn : ∀ l ∈ n.labels, l ≠ [])
    (h : dropDots m.asciiChars = dropDots n.asciiChars) : m = n := by
  have hread := congrArg readText h
  rw [readText_dropDots hm, readText_dropDots hn] at hread
  obtain ⟨ls⟩ := m
  obtain ⟨ms⟩ := n
  exact congrArg Name.mk (spelt_dropLast_inj hm hn hread)

/-! ## Case -/

/-- The name in lower case. -/
def fold (n : Name) : Name := ⟨n.labels.map (List.map foldByte)⟩

theorem fold_eq_iff {m n : Name} : m.fold = n.fold ↔ SameUpToCase m n := by
  rw [fold, fold, Name.mk.injEq, SameUpToCase]

theorem byteText_foldByte (first : Bool) (b : UInt8) :
    byteText first (foldByte b) = (byteText first b).map Char.toLower := by
  revert first
  exact forall_byte (P := fun b => ∀ first,
    byteText first (foldByte b) = (byteText first b).map Char.toLower) (by decide +kernel) b

theorem labelText_fold (l : Label) :
    labelText (l.map foldByte) = (labelText l).map Char.toLower := by
  cases l with
  | nil => rfl
  | cons b bs =>
    simp only [labelText, List.map_cons, List.map_append, List.flatMap_map, List.map_flatMap,
      byteText_foldByte]

/-- The text of a name in lower case is its text in lower case. -/
theorem asciiChars_fold (n : Name) : n.fold.asciiChars = n.asciiChars.map Char.toLower := by
  obtain ⟨_ | ⟨l, ls⟩⟩ := n
  · decide
  · have hdot : ['.'].map Char.toLower = ['.'] := by decide
    simp only [asciiChars, fold, List.isEmpty_map, List.isEmpty_cons, Bool.false_eq_true,
      if_false, List.flatMap_map, List.map_flatMap, List.map_append, labelText_fold, hdot]

/-! ## Blanks -/

theorem byteText_not_blank {first : Bool} {b : UInt8} {c : Char} (h : c ∈ byteText first b) :
    Text.isBlank c = false := by
  have hall : ∀ first, (byteText first b).all (fun c => !Text.isBlank c) = true :=
    forall_byte (P := fun b => ∀ first, (byteText first b).all (fun c => !Text.isBlank c) = true)
      (by decide +kernel) b
  exact Bool.eq_false_of_not_eq_true' (List.all_eq_true.mp (hall first) c h)

theorem labelText_not_blank {l : Label} {c : Char} (h : c ∈ labelText l) :
    Text.isBlank c = false := by
  cases l with
  | nil => cases h
  | cons b bs =>
    rcases List.mem_append.mp h with h | h
    · exact byteText_not_blank h
    · obtain ⟨b', -, h⟩ := List.mem_flatMap.mp h
      exact byteText_not_blank h

/-- The text of a name has no blanks. -/
theorem asciiChars_not_blank {n : Name} {c : Char} (h : c ∈ n.asciiChars) :
    Text.isBlank c = false := by
  have hdot : ∀ {c}, c ∈ ['.'] → Text.isBlank c = false := by
    intro c hc
    rw [List.mem_singleton.mp hc]
    decide
  unfold asciiChars at h
  split at h
  · exact hdot h
  · obtain ⟨l, -, h⟩ := List.mem_flatMap.mp h
    rcases List.mem_append.mp h with h | h
    · exact labelText_not_blank h
    · exact hdot h

end DnsGate.Dns.Name
