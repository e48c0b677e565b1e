import DnsGate.Binary.BigEndian

/-!
Chunks: a byte string after the two bytes of its length.  Taking the first chunk off gives back
what was chunked, and never reads past the chunk.
-/

namespace DnsGate.Chunk

/-- The most bytes that a chunk holds. -/
def maxLength : Nat := 65535

/-- The bytes of a chunk. -/
def wrap (bs : Bytes) : Bytes := BigEndian.encode 2 bs.length ++ bs

/-- The body of the first chunk and the bytes after it, if all of it is there. -/
def take? : Bytes → Option (Bytes × Bytes)
  | h :: l :: rest =>
    let len := h.toNat * 256 + l.toNat
    let body := rest.take len
    if body.length < len then none else some (body, rest.drop len)
  | _ => none

theorem take?_short {bs : Bytes} (h : bs.length < 2) : take? bs = none := by
  match bs with
  | [] => rfl
  | [_] => rfl
  | _ :: _ :: _ =>
    rw [List.length_cons, List.length_cons] at h
    omega

theorem take?_cons_cons (hi lo : UInt8) (bs : Bytes) :
    take? (hi :: lo :: bs) =
      if bs.length < hi.toNat * 256 + lo.toNat then none
      else some (bs.take (hi.toNat * 256 + lo.toNat), bs.drop (hi.toNat * 256 + lo.toNat)) := by
  have hcut (len : Nat) : (bs.take len).length < len ↔ bs.length < len := by
    rw [List.length_take]
    omega
  simp only [take?, hcut]

theorem take?_length_lt {bs body rest : Bytes} (h : take? bs = some (body, rest)) :
    rest.length < bs.length := by
  unfold take? at h
  split at h
  · simp only at h
    split at h
    · simp at h
    · simp only [Option.some.injEq, Prod.mk.injEq] at h
      obtain ⟨_, rfl⟩ := h
      simp; omega
  · simp at h

theorem wrap_eq {bs : Bytes} (h : bs.length ≤ maxLength) :
    wrap bs = UInt8.ofNat (bs.length / 256) :: UInt8.ofNat (bs.length % 256) :: bs := by
  simp only [maxLength] at h
  simp only [wrap, BigEndian.encode, List.nil_append, List.cons_append]
  congr 2
  omega

theorem length_wrap (bs : Bytes) : (wrap bs).length = 2 + bs.length := by
  rw [wrap, List.length_append, BigEndian.length_encode]

/-- A chunk is read back, with what follows it. -/
theorem take?_wrap_append {bs : Bytes} (h : bs.length ≤ maxLength) (rest : Bytes) :
    take? (wrap bs ++ rest) = some (bs, rest) := by
  have h' : bs.length < 65536 := by simp only [maxLength] at h; omega
  have hl : (UInt8.ofNat (bs.length / 256)).toNat * 256 + (UInt8.ofNat (bs.length % 256)).toNat
      = bs.length := by
    simp; omega
  rw [wrap_eq h]
  simp only [List.cons_append, take?, hl]
  simp

/-- What is taken off is a chunk, written as any chunk is. -/
theorem eq_wrap_append_of_take? {bs body rest : Bytes} (h : take? bs = some (body, rest)) :
    body.length ≤ maxLength ∧ bs = wrap body ++ rest := by
  unfold take? at h
  split at h
  · rename_i hi lo after
    dsimp only at h
    split at h
    · cases h
    · rename_i hlong
      cases h
      have hbound : hi.toNat < 256 ∧ lo.toNat < 256 := ⟨hi.toNat_lt, lo.toNat_lt⟩
      have hlen : (after.take (hi.toNat * 256 + lo.toNat)).length = hi.toNat * 256 + lo.toNat :=
        Nat.le_antisymm (List.length_take_le _ _) (Nat.le_of_not_lt hlong)
      have hprefix : BigEndian.encode 2 (hi.toNat * 256 + lo.toNat) = [hi, lo] := by
        have hvalue : BigEndian.value [hi, lo] = hi.toNat * 256 + lo.toNat := by
          simp [BigEndian.value]
        rw [← hvalue, BigEndian.encode_value (by rfl)]
      refine ⟨by rw [hlen, maxLength]; omega, ?_⟩
      rw [wrap, hlen, hprefix, List.append_assoc, List.take_append_drop]
      rfl
  · cases h

/-- What a parser makes of the chunks, up to the first one that is cut off or that it refuses. -/
def parseAll {R : Type} (parse : Bytes → Option R) (bs : Bytes) : List R :=
  match _h : take? bs with
  | none => []
  | some (body, rest) =>
    match parse body with
    | none => []
    | some r => r :: parseAll parse rest
termination_by bs.length
decreasing_by exact take?_length_lt _h

end DnsGate.Chunk
