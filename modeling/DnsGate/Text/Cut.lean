/-!
Cutting text in two: at the first place where a pattern stands, at the first character of a kind,
or by one character at an end.
-/

namespace DnsGate.Text

/-- What follows `pat` when the text starts with it. -/
def after? : List Char → List Char → Option (List Char)
  | [], cs => some cs
  | _ :: _, [] => none
  | p :: ps, c :: cs => if p = c then after? ps cs else none

/-- What stands before and after the first occurrence of `pat`. -/
def cut? (pat : List Char) : List Char → Option (List Char × List Char)
  | [] => (after? pat []).map (([], ·))
  | c :: cs =>
    match after? pat (c :: cs) with
    | some rest => some ([], rest)
    | none => (cut? pat cs).map fun (l, r) => (c :: l, r)

/-- The text without one `c` at its end. -/
def dropLastOne (c : Char) (cs : List Char) : List Char :=
  if cs.getLast? = some c then cs.dropLast else cs

theorem after?_append (pat cs : List Char) : after? pat (pat ++ cs) = some cs := by
  induction pat with
  | nil => simp [after?]
  | cons p ps ih => simp [after?, ih]

theorem eq_append_of_after? {pat cs rest : List Char} (h : after? pat cs = some rest) :
    cs = pat ++ rest := by
  induction pat generalizing cs with
  | nil => simpa [after?] using h
  | cons p ps ih =>
    cases cs with
    | nil => simp [after?] at h
    | cons c cs =>
      by_cases hp : p = c
      · subst hp; simp [after?] at h; simp [ih h]
      · simp [after?, hp] at h

theorem eq_append_of_cut? {pat cs l r : List Char} (h : cut? pat cs = some (l, r)) :
    cs = l ++ pat ++ r := by
  induction cs generalizing l with
  | nil =>
    simp only [cut?, Option.map_eq_some_iff, Prod.mk.injEq] at h
    obtain ⟨r', hr, rfl, rfl⟩ := h
    simpa using eq_append_of_after? hr
  | cons c cs ih =>
    simp only [cut?] at h
    split at h
    · rename_i rest hr
      simp only [Option.some.injEq, Prod.mk.injEq] at h
      obtain ⟨rfl, rfl⟩ := h
      simpa using eq_append_of_after? hr
    · simp only [Option.map_eq_some_iff, Prod.mk.injEq, Prod.exists] at h
      obtain ⟨l', r', h', rfl, rfl⟩ := h
      simp [ih h']

end DnsGate.Text
