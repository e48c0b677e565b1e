import Mathlib
import DnsGate.Proofs.NameText

/-!
Where the text of a name has the text of a host name.  The labels of host names stand for themselves
in text, but for a hyphen at the start, which is escaped; and a dot in a label is escaped by a
backslash before it, but remains a dot.  So a host name stands at the end of the text, after a dot
or alone, exactly if it is the end of the labels and none of its labels starts with a hyphen, or if
its first label stands after a dot inside a label (`text_ends_iff`).
-/

namespace DnsGate.Dns.Name

/-! ## Labels of host names -/

/-- The characters of labels of host names. -/
def isHostChar (c : Char) : Bool := c.isAlphanum || c == '-' || c == '_'

/-- The character with the number of a byte. -/
def byteChar (b : UInt8) : Char := Char.ofNat b.toNat

def isHostByte (b : UInt8) : Bool := isHostChar (byteChar b)

theorem ne_of_isHostChar {c : Char} (h : isHostChar c = true) : c ≠ '.' ∧ c ≠ '\\' := by
  constructor
  · rintro rfl
    exact absurd h (by decide)
  · rintro rfl
    exact absurd h (by decide)

/-- A label of a host name. -/
def HostLabel (l : Label) : Prop := l ≠ [] ∧ ∀ b ∈ l, isHostByte b = true

instance (l : Label) : Decidable (HostLabel l) :=
  decidable_of_iff (l ≠ [] ∧ l.all isHostByte = true) (by rw [HostLabel, List.all_eq_true])

/-- A label of a host name that is its own text. -/
def PlainLabel (l : Label) : Prop := HostLabel l ∧ l.head? ≠ some 0x2D

instance (l : Label) : Decidable (PlainLabel l) := inferInstanceAs (Decidable (_ ∧ _))

theorem HostLabel.dot_not_mem {l : Label} (h : HostLabel l) : '.' ∉ l.map byteChar := by
  intro hmem
  obtain ⟨b, hb, hdot⟩ := List.mem_map.mp hmem
  exact (ne_of_isHostChar (h.2 b hb)).1 hdot

/-- The text of labels, a dot at the end of each. -/
def text (ls : List Label) : List Char := ls.flatMap fun l => labelText l ++ ['.']

/-- Labels as they are, a dot at the end of each. -/
def literal (ls : List Label) : List Char := ls.flatMap fun l => l.map byteChar ++ ['.']

theorem text_cons (l : Label) (ls : List Label) : text (l :: ls) = labelText l ++ '.' :: text ls := by
  simp [text]

theorem text_append (ls ms : List Label) : text (ls ++ ms) = text ls ++ text ms :=
  List.flatMap_append

theorem literal_cons (l : Label) (ls : List Label) :
    literal (l :: ls) = l.map byteChar ++ '.' :: literal ls := by
  simp [literal]

/-! ## Text of bytes and labels -/

/-- The characters of host names, dots included. -/
def isHostText (c : Char) : Bool := isHostChar c || c == '.'

theorem byteText_of_host {first : Bool} {b : UInt8} (h : isHostByte b = true)
    (hfirst : first = true → b ≠ 0x2D) : byteText first b = [byteChar b] := by
  revert first h
  exact forall_byte (P := fun b => ∀ first, isHostByte b = true → (first = true → b ≠ 0x2D) →
    byteText first b = [byteChar b]) (by decide +kernel) b _

/-- Whatever is escaped shows by its backslash. -/
theorem host_of_byteText {first : Bool} {b : UInt8}
    (h : ∀ c ∈ byteText first b, isHostText c = true) :
    isHostByte b = true ∧ (first = true → b ≠ 0x2D) := by
  have hall : ∀ first, (byteText first b).all isHostText = true →
      isHostByte b = true ∧ (first = true → b ≠ 0x2D) :=
    forall_byte (P := fun b => ∀ first, (byteText first b).all isHostText = true →
      isHostByte b = true ∧ (first = true → b ≠ 0x2D)) (by decide +kernel) b
  exact hall first (List.all_eq_true.mpr h)

theorem flatMap_byteText {bs : Bytes} (h : ∀ b ∈ bs, isHostByte b = true) :
    bs.flatMap (byteText false) = bs.map byteChar := by
  induction bs with
  | nil => rfl
  | cons b bs ih =>
    obtain ⟨hb, hbs⟩ := List.forall_mem_cons.mp h
    rw [List.flatMap_cons, byteText_of_host hb (by simp), ih hbs]
    rfl

theorem host_of_flatMap {bs : Bytes}
    (h : ∀ c ∈ bs.flatMap (byteText false), isHostText c = true) :
    ∀ b ∈ bs, isHostByte b = true := by
  intro b hb
  exact (host_of_byteText fun c hc => h c (List.mem_flatMap.mpr ⟨b, hb, hc⟩)).1

theorem labelText_of_plain {l : Label} (h : PlainLabel l) : labelText l = l.map byteChar := by
  obtain ⟨⟨-, hhost⟩, hhead⟩ := h
  cases l with
  | nil => rfl
  | cons b bs =>
    obtain ⟨hb, hbs⟩ := List.forall_mem_cons.mp hhost
    rw [labelText, byteText_of_host hb fun _ hyphen => hhead (congrArg some hyphen),
      flatMap_byteText hbs]
    rfl

theorem plain_of_labelText {l : Label} (hne : l ≠ [])
    (h : ∀ c ∈ labelText l, isHostText c = true) : PlainLabel l := by
  cases l with
  | nil => exact absurd rfl hne
  | cons b bs =>
    obtain ⟨hb, hhead⟩ := host_of_byteText fun c hc => h c (List.mem_append_left _ hc)
    have hbs := host_of_flatMap fun c hc => h c (List.mem_append_right _ hc)
    refine ⟨⟨hne, List.forall_mem_cons.mpr ⟨hb, hbs⟩⟩, fun hyphen => hhead rfl ?_⟩
    exact Option.some.inj hyphen

theorem text_of_plain {ls : List Label} (h : ∀ l ∈ ls, PlainLabel l) : text ls = literal ls := by
  induction ls with
  | nil => rfl
  | cons l ls ih =>
    obtain ⟨hl, hls⟩ := List.forall_mem_cons.mp h
    rw [text_cons, literal_cons, labelText_of_plain hl, ih hls]

theorem plain_of_text {ls : List Label} (hne : ∀ l ∈ ls, l ≠ [])
    (h : ∀ c ∈ text ls, isHostText c = true) : ∀ l ∈ ls, PlainLabel l := by
  intro l hl
  refine plain_of_labelText (hne l hl) fun c hc => h c ?_
  exact List.mem_flatMap.mpr ⟨l, hl, List.mem_append_left _ hc⟩

/-! ## Literal text -/

section Literal

variable {ls ms hs : List Label}

theorem mem_literal {c : Char} (h : c ∈ literal ls) :
    (∃ l ∈ ls, ∃ b ∈ l, byteChar b = c) ∨ c = '.' := by
  obtain ⟨l, hl, hc⟩ := List.mem_flatMap.mp h
  rcases List.mem_append.mp hc with hc | hc
  · exact Or.inl ⟨l, hl, List.mem_map.mp hc⟩
  · exact Or.inr (List.mem_singleton.mp hc)

theorem literal_host (h : ∀ l ∈ ls, ∀ b ∈ l, isHostByte b = true) :
    ∀ c ∈ literal ls, isHostText c = true := by
  intro c hc
  rcases mem_literal hc with ⟨l, hl, b, hb, rfl⟩ | rfl
  · exact Bool.or_eq_true_iff.mpr (Or.inl (h l hl b hb))
  · rfl

theorem literal_not_blank (h : ∀ l ∈ ls, ∀ b ∈ l, isHostByte b = true) :
    ∀ c ∈ literal ls, Text.isBlank c = false := by
  have hbyte : ∀ b : UInt8, isHostByte b = true → Text.isBlank (byteChar b) = false :=
    forall_byte (by decide +kernel)
  intro c hc
  rcases mem_literal hc with ⟨l, hl, b, hb, rfl⟩ | rfl
  · exact hbyte b (h l hl b hb)
  · decide

theorem readText_host (h : ∀ l ∈ ls, ∀ b ∈ l, isHostByte b = true) :
    readText (literal ls) = spelt ls := by
  induction ls with
  | nil => rfl
  | cons l ls ih =>
    obtain ⟨hl, hls⟩ := List.forall_mem_cons.mp h
    rw [literal_cons, ← flatMap_byteText hl, readText_flatMap, readText, ih hls]
    simp [spelt]

theorem literal_inj (hls : ∀ l ∈ ls, ∀ b ∈ l, isHostByte b = true)
    (hms : ∀ l ∈ ms, ∀ b ∈ l, isHostByte b = true) (h : literal ls = literal ms) : ls = ms := by
  apply spelt_inj
  rw [← readText_host hls, ← readText_host hms, h]

/-- The text of labels is that of host labels exactly if they are these and plain. -/
theorem text_eq_literal_iff (hls : ∀ l ∈ ls, l ≠ []) (hhs : ∀ l ∈ hs, HostLabel l) :
    text ls = literal hs ↔ ls = hs ∧ ∀ l ∈ hs, PlainLabel l := by
  constructor
  · intro h
    have hhost := literal_host fun l hl => (hhs l hl).2
    have hplain : ∀ l ∈ ls, PlainLabel l := plain_of_text hls (by rwa [h])
    rw [text_of_plain hplain] at h
    obtain rfl := literal_inj (fun l hl => (hplain l hl).1.2) (fun l hl => (hhs l hl).2) h
    exact ⟨rfl, hplain⟩
  · rintro ⟨rfl, hplain⟩
    exact text_of_plain hplain

end Literal

/-! ## Dots in labels -/

/-- A dot in the text of a byte is the escaped one, or comes later. -/
theorem dot_of_byteText_append {first : Bool} {b : UInt8} {rest pre cs : List Char}
    (h : byteText first b ++ rest = pre ++ '.' :: cs) :
    (b = 0x2E ∧ cs = rest) ∨ ∃ pre', rest = pre' ++ '.' :: cs := by
  have hdot : ∀ b : UInt8, ∀ first, '.' ∈ byteText first b →
      b = 0x2E ∧ byteText first b = ['\\', '.'] :=
    forall_byte (by decide +kernel)
  rcases List.append_eq_append_iff.mp h with ⟨as, -, hrest⟩ | ⟨bs, hbyte, hcs⟩
  · exact Or.inr ⟨as, hrest⟩
  · cases bs with
    | nil => exact Or.inr ⟨[], hcs.symm⟩
    | cons d bs =>
      obtain ⟨rfl, rfl⟩ := List.cons.inj hcs
      obtain ⟨rfl, htext⟩ := hdot b first (by simp [hbyte])
      rw [hbyte] at htext
      have hbs : bs = [] := by
        cases pre with
        | nil => cases htext
        | cons c pre =>
          have hlast : pre ++ '.' :: bs = ['.'] := (List.cons.inj htext).2
          rcases List.append_eq_singleton_iff.mp hlast with ⟨-, h⟩ | ⟨-, h⟩
          · exact (List.cons.inj h).2
          · cases h
      exact Or.inl ⟨rfl, congrArg (· ++ rest) hbs⟩

theorem dot_of_flatMap {bs : Bytes} {pre cs : List Char}
    (h : bs.flatMap (byteText false) = pre ++ '.' :: cs) :
    ∃ front piece, bs = front ++ 0x2E :: piece ∧ cs = piece.flatMap (byteText false) := by
  induction bs generalizing pre with
  | nil => simp at h
  | cons b bs ih =>
    rw [List.flatMap_cons] at h
    rcases dot_of_byteText_append h with ⟨rfl, rfl⟩ | ⟨pre', hrest⟩
    · exact ⟨[], bs, rfl, rfl⟩
    · obtain ⟨front, piece, rfl, rfl⟩ := ih hrest
      exact ⟨b :: front, piece, rfl, rfl⟩

/-- A dot in the text of a label stands for a dot in the label. -/
theorem dot_of_labelText {l : Label} {pre cs : List Char} (h : labelText l = pre ++ '.' :: cs) :
    ∃ front piece, l = front ++ 0x2E :: piece ∧ cs = piece.flatMap (byteText false) := by
  cases l with
  | nil => simp [labelText] at h
  | cons b bs =>
    rw [labelText] at h
    rcases dot_of_byteText_append h with ⟨rfl, rfl⟩ | ⟨pre', hrest⟩
    · exact ⟨[], bs, rfl, rfl⟩
    · obtain ⟨front, piece, rfl, rfl⟩ := dot_of_flatMap hrest
      exact ⟨b :: front, piece, rfl, rfl⟩

theorem labelText_dot (front piece : Bytes) :
    ∃ pre, labelText (front ++ 0x2E :: piece) = pre ++ '.' :: piece.flatMap (byteText false) := by
  have hdot : ∀ first, byteText first 0x2E = ['\\', '.'] := by decide
  cases front with
  | nil => exact ⟨['\\'], by rw [List.nil_append, labelText, hdot]; rfl⟩
  | cons b front =>
    refine ⟨byteText true b ++ front.flatMap (byteText false) ++ ['\\'], ?_⟩
    rw [List.cons_append, labelText, List.flatMap_append, List.flatMap_cons, hdot]
    simp

/-! ## Ends of text -/

/-- Labels end in those of a host name for whoever looks at their text: they do, and all of these
are plain, or all but the first are and that one stands after a dot in a label. -/
def EndsIn (ls hs : List Label) : Prop :=
  (hs <:+ ls ∧ ∀ l ∈ hs, PlainLabel l) ∨
    ∃ front piece rest, hs = piece :: rest ∧ (front ++ 0x2E :: piece) :: rest <:+ ls ∧
      ∀ l ∈ rest, PlainLabel l

section Ends

variable {l : Label} {ls hs : List Label}

theorem EndsIn.cons (h : EndsIn ls hs) (l : Label) : EndsIn (l :: ls) hs := by
  rcases h with ⟨hsuffix, hplain⟩ | ⟨front, piece, rest, hhs, hsuffix, hplain⟩
  · exact Or.inl ⟨hsuffix.trans (List.suffix_cons l ls), hplain⟩
  · exact Or.inr ⟨front, piece, rest, hhs, hsuffix.trans (List.suffix_cons l ls), hplain⟩

/-- A list ends in one list of each length only, and no label is the end of itself after a dot. -/
theorem not_suffix_of_dot {front piece : Bytes} {rest : List Label}
    (h : (front ++ 0x2E :: piece) :: rest <:+ ls) : ¬ piece :: rest <:+ ls := by
  intro hpiece
  have hlen : ((front ++ 0x2E :: piece) :: rest).length = (piece :: rest).length := rfl
  have hsuffix := List.suffix_of_suffix_length_le h hpiece hlen.le
  have hlabel := (List.cons.inj (hsuffix.eq_of_length hlen)).1
  have hbytes := congrArg List.length hlabel
  simp only [List.length_append, List.length_cons] at hbytes
  omega

/-- The labels in which others end for the reader and in fact are plain. -/
theorem EndsIn.plain (h : EndsIn ls hs) (hsuffix : hs <:+ ls) : ∀ l ∈ hs, PlainLabel l := by
  rcases h with ⟨-, hplain⟩ | ⟨front, piece, rest, rfl, hdot, -⟩
  · exact hplain
  · exact absurd hsuffix (not_suffix_of_dot hdot)

theorem endsIn_of_text (hls : ∀ l ∈ ls, l ≠ []) (hhs : ∀ l ∈ hs, HostLabel l) {pre : List Char}
    (h : text ls = pre ++ '.' :: literal hs) : EndsIn ls hs := by
  have hhost : ∀ l ∈ hs, ∀ b ∈ l, isHostByte b = true := fun l hl => (hhs l hl).2
  induction ls generalizing pre with
  | nil => simp [text] at h
  | cons l ls ih =>
    have hls' := (List.forall_mem_cons.mp hls).2
    have hend : text ls = literal hs → EndsIn (l :: ls) hs := by
      intro heq
      obtain ⟨rfl, hplain⟩ := (text_eq_literal_iff hls' hhs).mp heq
      exact Or.inl ⟨List.suffix_cons l ls, hplain⟩
    rw [text_cons] at h
    rcases List.append_eq_append_iff.mp h with ⟨as, -, hrest⟩ | ⟨bs, hlabel, hrest⟩
    · -- the host name stands in the labels after this one
      cases as with
      | nil => exact hend (List.cons.inj hrest).2
      | cons a as => exact (ih hls' (List.cons.inj hrest).2).cons l
    · cases bs with
      | nil => exact hend (List.cons.inj hrest).2.symm
      | cons d bs =>
        -- its first label stands after a dot in this one
        obtain ⟨rfl, hliteral⟩ := List.cons.inj hrest
        have hshown : ∀ c ∈ bs ++ '.' :: text ls, isHostText c = true := by
          rw [← List.append_eq, ← hliteral]
          exact literal_host hhost
        obtain ⟨front, piece, rfl, rfl⟩ := dot_of_labelText hlabel
        have hpiece := host_of_flatMap fun c hc => hshown c (List.mem_append_left _ hc)
        have hplain : ∀ l ∈ ls, PlainLabel l := plain_of_text hls' fun c hc =>
          hshown c (List.mem_append_right _ (List.mem_cons_of_mem _ hc))
        have hhs : hs = piece :: ls := by
          apply literal_inj hhost
          · exact List.forall_mem_cons.mpr ⟨hpiece, fun l hl => (hplain l hl).1.2⟩
          · rw [hliteral, flatMap_byteText hpiece, text_of_plain hplain, literal_cons]
            rfl
        exact Or.inr ⟨front, piece, ls, hhs, List.suffix_refl _, hplain⟩

/-- The text of labels is that of a host name, or has it after a dot at its end, exactly if the
labels end in those of the host name. -/
theorem text_ends_iff (hls : ∀ l ∈ ls, l ≠ []) (hhs : ∀ l ∈ hs, HostLabel l) :
    (text ls = literal hs ∨ ∃ pre, text ls = pre ++ '.' :: literal hs) ↔ EndsIn ls hs := by
  constructor
  · rintro (h | ⟨pre, h⟩)
    · obtain ⟨rfl, hplain⟩ := (text_eq_literal_iff hls hhs).mp h
      exact Or.inl ⟨List.suffix_refl _, hplain⟩
    · exact endsIn_of_text hls hhs h
  · rintro (⟨⟨front, rfl⟩, hplain⟩ | ⟨front, piece, rest, rfl, ⟨before, rfl⟩, hplain⟩)
    · obtain rfl | ⟨front, l, rfl⟩ := front.eq_nil_or_concat'
      · exact Or.inl (text_of_plain hplain)
      · refine Or.inr ⟨text front ++ labelText l, ?_⟩
        rw [text_append, text_append, text_of_plain hplain]
        simp [text]
    · obtain ⟨pre, hpre⟩ := labelText_dot front piece
      refine Or.inr ⟨text before ++ pre, ?_⟩
      have hpiece := (hhs piece List.mem_cons_self).2
      rw [text_append, text_cons, hpre, text_of_plain hplain, literal_cons,
        flatMap_byteText hpiece]
      simp

end Ends

/-! ## Without the last dot -/

/-- The text of a name without its last dot, and without another one if there is one, ends in
another character just if the whole text ends in that and one dot. -/
theorem dropDots_eq_iff {n : Name} (hn : ∀ l ∈ n.labels, l ≠ []) {xs : List Char} {c : Char}
    (hdot : c ≠ '.') (hslash : c ≠ '\\') :
    dropDots n.asciiChars = xs ++ [c] ↔ text n.labels = xs ++ [c] ++ ['.'] := by
  obtain ⟨labels⟩ := n
  obtain rfl | ⟨ls, l, rfl⟩ := labels.eq_nil_or_concat'
  · simp [dropDots, asciiChars, Text.dropLastOne, text]
  obtain rfl | ⟨bs, b, rfl⟩ := l.eq_nil_or_concat'
  · exact absurd rfl (hn [] (by simp))
  obtain ⟨cs, first, hlabel, -⟩ := exists_labelText_concat bs b
  have htext : text (ls ++ [bs ++ [b]]) = text ls ++ cs ++ byteText first b ++ ['.'] := by
    rw [text_append, text_cons, hlabel]
    simp [text]
  have hchars : asciiChars ⟨ls ++ [bs ++ [b]]⟩ = text (ls ++ [bs ++ [b]]) := if_neg (by simp)
  have hdrop : Text.dropLastOne '.' ['.'] = [] := rfl
  rw [dropDots, hchars, htext, Text.dropLastOne_append _ _ (List.cons_ne_nil _ _), hdrop,
    List.append_nil, Text.dropLastOne_append _ _ (byteText_ne_nil first b),
    List.append_left_inj]
  by_cases hb : b = 0x2E
  · -- what is left is the backslash of an escaped dot
    have hescape : byteText first b = ['\\', '.'] := by
      rw [hb]
      cases first <;> decide
    rw [hescape, show Text.dropLastOne '.' ['\\', '.'] = ['\\'] from rfl]
    constructor
    · intro h
      exact absurd (List.append_inj' h rfl).2 (by simpa using hslash.symm)
    · intro h
      rw [show ['\\', '.'] = ['\\'] ++ ['.'] from rfl, ← List.append_assoc] at h
      exact absurd (List.append_inj' h rfl).2 (by simpa using hdot.symm)
  · have hkeep : ∀ first, b ≠ 0x2E →
        Text.dropLastOne '.' (byteText first b) = byteText first b :=
      forall_byte (P := fun b => ∀ first, b ≠ 0x2E →
        Text.dropLastOne '.' (byteText first b) = byteText first b) (by decide +kernel) b
    rw [hkeep first hb]

section Hosts

variable {n : Name} {hs : List Label} {host : List Char}

theorem exists_last (hhs : ∀ l ∈ hs, HostLabel l) (hne : hs ≠ [])
    (hhost : literal hs = host ++ ['.']) : ∃ xs c, host = xs ++ [c] ∧ isHostChar c = true := by
  obtain rfl | ⟨front, l, rfl⟩ := hs.eq_nil_or_concat'
  · exact absurd rfl hne
  obtain ⟨hl, hbytes⟩ := hhs l (by simp)
  obtain rfl | ⟨bs, b, rfl⟩ := l.eq_nil_or_concat'
  · exact absurd rfl hl
  have hlast : literal (front ++ [bs ++ [b]]) =
      literal front ++ bs.map byteChar ++ [byteChar b] ++ ['.'] := by
    simp [literal]
  rw [hhost, List.append_left_inj] at hlast
  exact ⟨_, _, hlast, hbytes b (by simp)⟩

theorem exists_first (hhs : ∀ l ∈ hs, HostLabel l) (hne : hs ≠ [])
    (hhost : literal hs = host ++ ['.']) : ∃ c cs, host = c :: cs ∧ isHostChar c = true := by
  obtain ⟨l, rest, rfl⟩ := List.exists_cons_of_ne_nil hne
  obtain ⟨hl, hbytes⟩ := hhs l List.mem_cons_self
  obtain ⟨b, bs, rfl⟩ := List.exists_cons_of_ne_nil hl
  rw [literal_cons, List.map_cons, List.cons_append] at hhost
  cases host with
  | nil => simp at hhost
  | cons c cs => exact ⟨c, cs, rfl, (List.cons.inj hhost).1 ▸ hbytes b List.mem_cons_self⟩

theorem dot_mem_iff (hhs : ∀ l ∈ hs, HostLabel l) (hhost : literal hs = host ++ ['.']) :
    '.' ∈ host ↔ 2 ≤ hs.length := by
  have hcount : (literal hs).count '.' = hs.length := by
    clear hhost
    induction hs with
    | nil => rfl
    | cons l hs ih =>
      obtain ⟨hl, hrest⟩ := List.forall_mem_cons.mp hhs
      rw [literal_cons, List.count_append, List.count_cons_self, ih hrest,
        List.count_eq_zero_of_not_mem hl.dot_not_mem]
      simp
  rw [hhost, List.count_append, List.count_singleton_self] at hcount
  rw [← List.count_pos_iff]
  omega

/-- A name is a host name, or ends in one after a dot if that has at least two labels, for whoever
takes its text without the last dot and cuts it at dots. -/
theorem dropDots_ends_iff (hn : ∀ l ∈ n.labels, l ≠ []) (hhs : ∀ l ∈ hs, HostLabel l)
    (hne : hs ≠ []) (hhost : literal hs = host ++ ['.']) :
    (dropDots n.asciiChars = host ∨
        '.' ∈ host ∧ ∃ pre, dropDots n.asciiChars = pre ++ '.' :: host) ↔
      EndsIn n.labels hs ∧ (hs = n.labels ∨ 2 ≤ hs.length) := by
  obtain ⟨xs, c, rfl, hc⟩ := exists_last hhs hne hhost
  obtain ⟨hdot, hslash⟩ := ne_of_isHostChar hc
  have hwhole : dropDots n.asciiChars = xs ++ [c] ↔ text n.labels = literal hs := by
    rw [dropDots_eq_iff hn hdot hslash, hhost]
  have hend : ∀ pre, dropDots n.asciiChars = pre ++ '.' :: (xs ++ [c]) ↔
      text n.labels = pre ++ '.' :: literal hs := by
    intro pre
    have hshift : pre ++ '.' :: (xs ++ [c]) = pre ++ '.' :: xs ++ [c] := by simp
    rw [hshift, dropDots_eq_iff hn hdot hslash, hhost]
    simp
  simp only [hwhole, hend, dot_mem_iff hhs hhost, ← text_ends_iff hn hhs]
  constructor
  · rintro (h | ⟨htwo, h⟩)
    · exact ⟨Or.inl h, Or.inl ((text_eq_literal_iff hn hhs).mp h).1.symm⟩
    · exact ⟨Or.inr h, Or.inr htwo⟩
  · rintro ⟨h | h, rfl | htwo⟩
    · exact Or.inl h
    · exact Or.inl h
    · obtain ⟨pre, hpre⟩ := h
      exact Or.inl (text_of_plain ((endsIn_of_text hn hhs hpre).plain (List.suffix_refl _)))
    · exact Or.inr ⟨htwo, h⟩

end Hosts

end DnsGate.Dns.Name
