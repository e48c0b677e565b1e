import DnsGate.Proofs.PlainText
import DnsGate.Toml.Number

/-!
Integers that are written in decimal digits and read back (`integer?_toDigits`,
`integer?_neg_toDigits`).
-/

namespace DnsGate.Toml

open Text (digit?_of_mem_toDigits toDigits_induction toDigits_ne_nil)

/-! ## Digits -/

/-- No needless zero stands in front. -/
theorem head?_toDigits (n : Nat) :
    (Nat.toDigits 10 n).length = 1 ∨ (Nat.toDigits 10 n).head? ≠ some '0' := by
  have hhead : 0 < n → ∃ c, (Nat.toDigits 10 n).head? = some c ∧ c ≠ '0' := by
    refine toDigits_induction
      (P := fun n cs => 0 < n → ∃ c, cs.head? = some c ∧ c ≠ '0') ?_ ?_ n
    · intro d hd hpos
      refine ⟨_, rfl, ?_⟩
      decide +revert
    · intro n d cs hn _ ih _
      obtain ⟨c, hc, hzero⟩ := ih hn
      refine ⟨c, ?_, hzero⟩
      rw [List.head?_append, hc]
      rfl
  rcases Nat.eq_zero_or_pos n with rfl | hpos
  · exact Or.inl rfl
  · obtain ⟨c, hc, hzero⟩ := hhead hpos
    refine Or.inr ?_
    rw [hc]
    exact fun h => hzero (Option.some.inj h)

/-- Digits without underscores. -/
theorem ungroup?_digits {cs : List Char} (hsome : cs ≠ [])
    (h : ∀ c ∈ cs, (Text.digit? 10 c).isSome) : ungroup? 10 cs = some cs := by
  induction cs with
  | nil => exact absurd rfl hsome
  | cons c cs ih =>
    have hc := h c List.mem_cons_self
    match cs with
    | [] => exact if_pos hc
    | d :: cs =>
      have hd : d ≠ '_' := by
        rintro rfl
        exact absurd (h '_' (by simp)) (by decide)
      rw [ungroup?, if_pos hc, ih (List.cons_ne_nil _ _)
        fun e he => h e (List.mem_cons_of_mem _ he)]
      · rfl
      · exact List.cons_ne_nil _ _
      · intro rest heq
        exact hd (List.cons.inj heq).1

/-! ## Integers -/

theorem decimalDigits?_toDigits (n : Nat) :
    (decimalDigits? (Nat.toDigits 10 n)).bind (Text.readNat? 10) = some n := by
  have hungroup := ungroup?_digits (toDigits_ne_nil n) fun c hc => digit?_of_mem_toDigits hc
  have hzero : decide ((Nat.toDigits 10 n).length = 1 ∨
      (Nat.toDigits 10 n).head? ≠ some '0') = true := decide_eq_true (head?_toDigits n)
  rw [decimalDigits?, hungroup, Option.filter_some, if_pos hzero, Option.bind_some,
    Text.readNat?_toDigits]

/-- What has a digit or nothing after a zero is decimal. -/
theorem integer?_decimal {cs ds : List Char} {negative : Bool} {n : Nat}
    (h : ∀ d rest, cs = '0' :: d :: rest → (Text.digit? 10 d).isSome)
    (hsign : splitSign cs = (negative, ds))
    (hn : (decimalDigits? ds).bind (Text.readNat? 10) = some n) :
    integer? cs = some (if negative then -(n : Int) else n) := by
  unfold integer?
  split
  · exact absurd (h _ _ rfl) (by decide)
  · exact absurd (h _ _ rfl) (by decide)
  · exact absurd (h _ _ rfl) (by decide)
  · rw [hsign]
    dsimp only
    rw [hn]
    rfl

theorem splitSign_digits {cs : List Char} (h : ∀ c, cs.head? = some c → (Text.digit? 10 c).isSome) :
    splitSign cs = (false, cs) := by
  unfold splitSign
  split
  · exact absurd (h _ rfl) (by decide)
  · exact absurd (h _ rfl) (by decide)
  · rfl

theorem integer?_toDigits (n : Nat) : integer? (Nat.toDigits 10 n) = some (n : Int) := by
  have hdigits : ∀ c ∈ Nat.toDigits 10 n, (Text.digit? 10 c).isSome :=
    fun c hc => digit?_of_mem_toDigits hc
  have hsecond : ∀ d rest, Nat.toDigits 10 n = '0' :: d :: rest → (Text.digit? 10 d).isSome := by
    intro d rest heq
    exact hdigits d (heq ▸ List.mem_cons_of_mem _ List.mem_cons_self)
  have hsign := splitSign_digits fun c hc => hdigits c (List.mem_of_mem_head? hc)
  exact integer?_decimal hsecond hsign (decimalDigits?_toDigits n)

theorem integer?_neg_toDigits (n : Nat) :
    integer? ('-' :: Nat.toDigits 10 n) = some (-(n : Int)) :=
  integer?_decimal (fun d rest heq => absurd (List.cons.inj heq).1 (by decide)) rfl
    (decimalDigits?_toDigits n)

end DnsGate.Toml
