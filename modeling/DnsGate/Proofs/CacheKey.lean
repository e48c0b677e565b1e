import DnsGate.Proofs.NameText
import DnsGate.Serve.Question

/-!
Cache keys.  A key tells its bare name and its type, since the digits after the last bar are those
of the type; and the bare name of a question tells the name up to case, although it has lost two
dots and its escapes are folded.  Main statement: two questions have one key exactly if they have
one type and labels that one by one are the same up to case (`keys_separate_questions`).
-/

namespace DnsGate

/-! ## Bars -/

theorem append_cons_inj {α : Type} {c : α} {xs xs' ys ys' : List α} (hy : c ∉ ys) (hy' : c ∉ ys')
    (h : xs ++ c :: ys = xs' ++ c :: ys') : xs = xs' ∧ ys = ys' := by
  have htail : ∀ {as ys ys' : List α}, c ∉ ys → c :: ys = as ++ c :: ys' → as = [] ∧ ys = ys' := by
    intro as ys ys' hy h
    cases as with
    | nil => exact ⟨rfl, (List.cons.inj h).2⟩
    | cons a as =>
      rw [(List.cons.inj h).2] at hy
      exact absurd (by simp) hy
  rcases List.append_eq_append_iff.mp h with ⟨as, rfl, has⟩ | ⟨as, rfl, has⟩
  · obtain ⟨rfl, rfl⟩ := htail hy has
    exact ⟨(List.append_nil xs).symm, rfl⟩
  · obtain ⟨rfl, rfl⟩ := htail hy' has
    exact ⟨List.append_nil xs', rfl⟩

namespace Cache

/-! ## Keys -/

theorem toList_key (name : String) (type : UInt16) :
    (key name type).toList = (Rules.bare name).toList ++ '|' :: Nat.toDigits 10 type.toNat := by
  simp [key, Text.decimal]

/-- What stands before the last bar and the number after it tell each other apart. -/
theorem bar_digits_inj {xs ys : List Char} {t u : UInt16}
    (h : xs ++ '|' :: Nat.toDigits 10 t.toNat = ys ++ '|' :: Nat.toDigits 10 u.toNat) :
    xs = ys ∧ t = u := by
  have hbar : ∀ n, '|' ∉ Nat.toDigits 10 n := Text.notMem_toDigits (by decide)
  obtain ⟨hname, hdigits⟩ := append_cons_inj (hbar _) (hbar _) h
  have htype : t.toNat = u.toNat := calc
    t.toNat = Nat.ofDigitChars 10 (Nat.toDigits 10 t.toNat) 0 :=
      Nat.ofDigitChars_ten_toDigits.symm
    _ = Nat.ofDigitChars 10 (Nat.toDigits 10 u.toNat) 0 := by rw [hdigits]
    _ = u.toNat := Nat.ofDigitChars_ten_toDigits
  exact ⟨hname, UInt16.toNat_inj.mp htype⟩

/-- Keys are the same exactly for the same bare name and the same type. -/
theorem key_eq_iff {a b : String} {t u : UInt16} :
    key a t = key b u ↔ Rules.bare a = Rules.bare b ∧ t = u := by
  constructor
  · intro h
    have hlist := congrArg String.toList h
    rw [toList_key, toList_key] at hlist
    obtain ⟨hname, htype⟩ := bar_digits_inj hlist
    exact ⟨String.toList_inj.mp hname, htype⟩
  · rintro ⟨hname, rfl⟩
    rw [key, key, hname]

end Cache

namespace Serve

open Dns (Name)

/-! ## Keys of questions -/

theorem toList_domainOf (n : Name) :
    (domainOf n).toList = Text.dropLastOne '.' n.fold.asciiChars := by
  have htrim : Text.trimChars n.asciiChars = n.asciiChars :=
    Text.trimChars_of_not_blank fun _ => Name.asciiChars_not_blank
  rw [domainOf, Rules.toList_nameForm, Name.ascii, String.toList_ofList, htrim, Rules.bareChars,
    ← Text.dropLastOne_map_toLower (by decide), Name.asciiChars_fold]

theorem toList_bare_domainOf (n : Name) :
    (Rules.bare (domainOf n)).toList = Name.dropDots n.fold.asciiChars := by
  have hlow : n.fold.asciiChars.map Char.toLower = n.fold.asciiChars := by
    rw [Name.asciiChars_fold, List.map_map]
    exact List.map_congr_left fun c _ => Char.toLower_toLower_eq_toLower c
  rw [Rules.toList_bare, toList_domainOf, Rules.bareChars,
    ← Text.dropLastOne_map_toLower (by decide), ← Text.dropLastOne_map_toLower (by decide), hlow]
  rfl

/-- Questions share a key exactly if they have the same type and names that differ in case only,
provided that no label is empty. -/
theorem key_domainOf_eq_iff_of_labels {m n : Name} {t u : UInt16} (hm : ∀ l ∈ m.labels, l ≠ [])
    (hn : ∀ l ∈ n.labels, l ≠ []) :
    Cache.key (domainOf m) t = Cache.key (domainOf n) u ↔ Name.SameUpToCase m n ∧ t = u := by
  have hlabels : ∀ {n : Name}, (∀ l ∈ n.labels, l ≠ []) → ∀ l ∈ n.fold.labels, l ≠ [] := by
    rintro n hn l hl rfl
    obtain ⟨l', hl', hnil⟩ := List.mem_map.mp hl
    exact hn l' hl' (List.map_eq_nil_iff.mp hnil)
  rw [Cache.key_eq_iff, ← Name.fold_eq_iff, ← String.toList_inj, toList_bare_domainOf,
    toList_bare_domainOf]
  refine and_congr_left fun _ => ⟨Name.dropDots_inj (hlabels hm) (hlabels hn), fun h => ?_⟩
  rw [h]

theorem key_domainOf_eq_iff {m n : Name} {t u : UInt16} (hm : m.WellFormed) (hn : n.WellFormed) :
    Cache.key (domainOf m) t = Cache.key (domainOf n) u ↔ Name.SameUpToCase m n ∧ t = u :=
  key_domainOf_eq_iff_of_labels (fun l hl => List.ne_nil_of_length_pos (hm.1 l hl).1)
    fun l hl => List.ne_nil_of_length_pos (hn.1 l hl).1

/-- Keys separate questions.  However long the names and whatever the bytes of their labels, two
questions have one key exactly if they ask for one type and their names have as many labels, which
one by one are the same up to ASCII case. -/
theorem keys_separate_questions {m n : Name} {t u : Dns.RType}
    (hm : ∀ l ∈ m.labels, 1 ≤ l.length ∧ l.length ≤ 63)
    (hn : ∀ l ∈ n.labels, 1 ≤ l.length ∧ l.length ≤ 63) :
    Cache.key (domainOf m) t = Cache.key (domainOf n) u ↔
      t = u ∧ List.Forall₂ (fun l l' => l.map Name.foldByte = l'.map Name.foldByte)
        m.labels n.labels := by
  have hnames : Name.SameUpToCase m n ↔
      List.Forall₂ (fun l l' => l.map Name.foldByte = l'.map Name.foldByte) m.labels n.labels := by
    rw [Name.SameUpToCase, ← List.forall₂_eq_eq_eq, List.forall₂_map_left_iff,
      List.forall₂_map_right_iff]
  rw [key_domainOf_eq_iff_of_labels (fun l hl => List.ne_nil_of_length_pos (hm l hl).1)
    (fun l hl => List.ne_nil_of_length_pos (hn l hl).1), hnames]
  exact And.comm

/-- A name whose only label is an `A`, a backslash and a dot. -/
def dottedEnd : Name := ⟨[[0x41, 0x5C, 0x2E]]⟩

/-- A name whose only label is an `a` and a backslash. -/
def slashedEnd : Name := ⟨[[0x61, 0x5C]]⟩

/-- Their keys differ by one backslash, that of the dot which the key of the first has lost. -/
theorem escaped_ends_separated :
    (∀ l ∈ dottedEnd.labels, 1 ≤ l.length ∧ l.length ≤ 63) ∧
      (∀ l ∈ slashedEnd.labels, 1 ≤ l.length ∧ l.length ≤ 63) ∧
      Cache.key (domainOf dottedEnd) Dns.RType.a ≠ Cache.key (domainOf slashedEnd) Dns.RType.a := by
  have hdot : ∀ l ∈ dottedEnd.labels, 1 ≤ l.length ∧ l.length ≤ 63 := by decide
  have hslash : ∀ l ∈ slashedEnd.labels, 1 ≤ l.length ∧ l.length ≤ 63 := by decide
  refine ⟨hdot, hslash, fun h => ?_⟩
  obtain ⟨-, hnames⟩ := (keys_separate_questions hdot hslash).mp h
  exact absurd hnames (by decide)

/-- A dot at the end of a label is lost from the key, but not the backslash before it. -/
example : Cache.key (domainOf ⟨[[0x41, 0x5C, 0x2E]]⟩) Dns.RType.a = "a\\\\\\|1" := by decide
example : Cache.key (domainOf ⟨[[0x61, 0x5C]]⟩) Dns.RType.a = "a\\\\|1" := by decide

end Serve

end DnsGate
