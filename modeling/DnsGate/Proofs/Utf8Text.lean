import Mathlib
import DnsGate.Binary.Utf8

/-!
A text is read back from its UTF-8 bytes (`decode?_encode`).  Every character takes one sequence:
its lead tells how many bytes follow and how far the first of them may go, and those bounds hold of
the bytes of a character because it has no shorter sequence and is no surrogate.
-/

namespace DnsGate.Utf8

/-! ## Leads -/

/-- The lead of a sequence, with bounds that the first byte after it keeps. -/
def Leads (b : UInt8) (follow bits m : Nat) : Prop :=
  ∃ low high, lead? b = some ⟨follow, UInt8.ofNat low, UInt8.ofNat high, bits⟩ ∧
    low ≤ m + 128 ∧ m + 128 ≤ high ∧ high < 192

theorem leads_two {n m : Nat} (h : 2 ≤ n) (hn : n < 32) (hm : m < 64) :
    Leads (UInt8.ofNat (n + 192)) 1 n m := by
  refine ⟨0x80, 0xBF, ?_, by omega, by omega, by omega⟩
  interval_cases n <;> rfl

theorem leads_three {n m : Nat} (hn : n < 16) (hm : m < 64) (hshort : n = 0 → 32 ≤ m)
    (hsurrogate : n = 13 → m < 32) : Leads (UInt8.ofNat (n + 224)) 2 n m := by
  by_cases h0 : n = 0
  · subst h0
    exact ⟨0xA0, 0xBF, rfl, by have := hshort rfl; omega, by omega, by omega⟩
  · by_cases h13 : n = 13
    · subst h13
      exact ⟨0x80, 0x9F, rfl, by omega, by have := hsurrogate rfl; omega, by omega⟩
    · refine ⟨0x80, 0xBF, ?_, by omega, by omega, by omega⟩
      interval_cases n <;> first | rfl | contradiction

theorem leads_four {n m : Nat} (hn : n < 5) (hm : m < 64) (hshort : n = 0 → 16 ≤ m)
    (hlast : n = 4 → m < 16) : Leads (UInt8.ofNat (n + 240)) 3 n m := by
  by_cases h0 : n = 0
  · subst h0
    exact ⟨0x90, 0xBF, rfl, by have := hshort rfl; omega, by omega, by omega⟩
  · by_cases h4 : n = 4
    · subst h4
      exact ⟨0x80, 0x8F, rfl, by omega, by have := hlast rfl; omega, by omega⟩
    · refine ⟨0x80, 0xBF, ?_, by omega, by omega, by omega⟩
      interval_cases n <;> first | rfl | contradiction

/-! ## Sequences -/

theorem ofNat_le_ofNat {m n : Nat} (h : m ≤ n) (hn : n < 256) : UInt8.ofNat m ≤ UInt8.ofNat n := by
  rw [UInt8.le_iff_toNat_le, UInt8.toNat_ofNat', UInt8.toNat_ofNat']
  omega

/-- A byte that follows, between the bounds that the lead sets, adds six bits. -/
theorem finish_follow {low high m : Nat} (hlow : low ≤ m + 128) (hhigh : m + 128 ≤ high)
    (h : high < 192) (bits left : Nat) (bs : Bytes) :
    finish (UInt8.ofNat low) (UInt8.ofNat high) bits (left + 1) (UInt8.ofNat (m + 128) :: bs) =
      finish 0x80 0xBF (bits * 64 + m) left bs := by
  have hvalue : (UInt8.ofNat (m + 128)).toNat - 0x80 = m := by
    rw [UInt8.toNat_ofNat']
    omega
  rw [finish, if_pos, hvalue]
  rw [Bool.and_eq_true, decide_eq_true_eq, decide_eq_true_eq]
  exact ⟨ofNat_le_ofNat hlow (by omega), ofNat_le_ofNat hhigh (by omega)⟩

theorem finish_next {m : Nat} (hm : m < 64) (bits left : Nat) (bs : Bytes) :
    finish 0x80 0xBF bits (left + 1) (UInt8.ofNat (m + 128) :: bs) =
      finish 0x80 0xBF (bits * 64 + m) left bs :=
  have hhigh : m + 128 ≤ 0xBF := by omega
  finish_follow (Nat.le_add_left 0x80 m) hhigh (by omega) bits left bs

theorem unit_of_leads {n bits m left : Nat} (h : 128 ≤ n) (hn : n < 256)
    (hleads : Leads (UInt8.ofNat n) (left + 1) bits m) (bs : Bytes) :
    unit (UInt8.ofNat n) (UInt8.ofNat (m + 128) :: bs) =
      finish 0x80 0xBF (bits * 64 + m) left bs := by
  obtain ⟨low, high, hlead, hlow, hhigh, hbound⟩ := hleads
  have hb : ¬UInt8.ofNat n < 0x80 := UInt8.not_lt.mpr (ofNat_le_ofNat h hn)
  rw [unit, if_neg hb, hlead]
  exact finish_follow hlow hhigh hbound bits left bs

/-! ## Characters -/

theorem not_surrogate (c : Char) (h : c.toNat / 4096 = 13) : c.toNat / 64 % 64 < 32 := by
  have hvalid := c.valid
  have hrange : c.toNat < 0xD800 ∨ 0xDFFF < c.toNat ∧ c.toNat < 0x110000 := hvalid
  omega

theorem lt_limit (c : Char) : c.toNat < 0x110000 := by
  have hrange : c.toNat < 0xD800 ∨ 0xDFFF < c.toNat ∧ c.toNat < 0x110000 := c.valid
  omega

/-- The bytes of a character are one sequence. -/
theorem unit_encodeChar (c : Char) (bs : Bytes) :
    ∃ b more, String.utf8EncodeChar c = b :: more ∧ unit b (more ++ bs) = (some c, bs) := by
  have hlimit := lt_limit c
  have hsurrogate := not_surrogate c
  have hvalue : some (Char.ofNat c.toNat) = some c := congrArg some (Char.ofNat_toNat c)
  unfold String.utf8EncodeChar
  rw [show c.val.toNat = c.toNat from rfl]
  generalize c.toNat = n at hlimit hsurrogate hvalue ⊢
  dsimp only
  split
  · have hb : UInt8.ofNat n < 0x80 := by
      rw [UInt8.lt_iff_toNat_lt, UInt8.toNat_ofNat']
      show n % 256 < 128
      omega
    refine ⟨_, _, rfl, ?_⟩
    rw [unit, if_pos hb, UInt8.toNat_ofNat', Nat.mod_eq_of_lt (by omega), hvalue]
    rfl
  · split
    · refine ⟨_, _, rfl, ?_⟩
      have hleads := leads_two (n := n / 64 % 32) (m := n % 64) (by omega) (by omega) (by omega)
      rw [List.cons_append, List.nil_append, unit_of_leads (by omega) (by omega) hleads, finish,
        show n / 64 % 32 * 64 + n % 64 = n by omega, hvalue]
    · split
      · refine ⟨_, _, rfl, ?_⟩
        have hleads := leads_three (n := n / 4096 % 16) (m := n / 64 % 64) (by omega) (by omega)
          (by omega) (by omega)
        rw [List.cons_append, List.cons_append, List.nil_append,
          unit_of_leads (by omega) (by omega) hleads, finish_next (by omega), finish,
          show (n / 4096 % 16 * 64 + n / 64 % 64) * 64 + n % 64 = n by omega, hvalue]
      · refine ⟨_, _, rfl, ?_⟩
        have hleads := leads_four (n := n / 262144 % 8) (m := n / 4096 % 64) (by omega) (by omega)
          (by omega) (by omega)
        rw [List.cons_append, List.cons_append, List.cons_append, List.nil_append,
          unit_of_leads (by omega) (by omega) hleads, finish_next (by omega),
          finish_next (by omega), finish,
          show ((n / 262144 % 8 * 64 + n / 4096 % 64) * 64 + n / 64 % 64) * 64 + n % 64 = n
            by omega, hvalue]

/-! ## Texts -/

theorem units_encode (cs : List Char) :
    units (cs.flatMap String.utf8EncodeChar) = cs.map some := by
  induction cs with
  | nil => exact units.eq_1
  | cons c cs ih =>
    obtain ⟨b, more, hc, hunit⟩ := unit_encodeChar c (cs.flatMap String.utf8EncodeChar)
    rw [List.flatMap_cons, hc, List.cons_append, units.eq_2, hunit, ih, List.map_cons]

theorem decode?_encode (s : String) : decode? (encode s) = some s := by
  unfold decode? encode
  have hall : (s.toList.map some).mapM id = some s.toList := by
    rw [List.mapM_map]
    exact (List.mapM_pure (f := id)).trans (congrArg some (List.map_id _))
  rw [units_encode, hall]
  exact congrArg some String.ofList_toList

end DnsGate.Utf8
