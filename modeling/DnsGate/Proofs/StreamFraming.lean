import DnsGate.Forward.Framing

/-!
Exchanges on a stream.  A message is written as one frame, which is read back as that message with
nothing after it, and the reply is what the first two bytes of the stream announce, if all of it
comes; what follows it plays no part.  Main statement: `exchange_framed`.
-/

namespace DnsGate

/-- The length that the first two bytes of a stream announce. -/
def Chunk.announced (stream : Bytes) : Nat := BigEndian.value (stream.take 2)

theorem Chunk.announced_cons_cons (hi lo : UInt8) (bs : Bytes) :
    announced (hi :: lo :: bs) = hi.toNat * 256 + lo.toNat := by
  simp [announced, BigEndian.value]

/-- A chunk is there if the bytes after the first two are as many as those announce. -/
theorem Chunk.take?_eq (stream : Bytes) : take? stream =
    if 2 + announced stream ≤ stream.length then
      some ((stream.drop 2).take (announced stream), (stream.drop 2).drop (announced stream))
    else none := by
  match stream with
  | [] => rfl
  | [b] =>
    have hshort : [b].length < 2 := Nat.one_lt_two
    rw [take?_short hshort, if_neg (by omega)]
  | hi :: lo :: bs =>
    rw [take?_cons_cons, announced_cons_cons, List.length_cons, List.length_cons]
    by_cases hall : bs.length < hi.toNat * 256 + lo.toNat
    · rw [if_pos hall, if_neg (by omega)]
    · rw [if_neg hall, if_pos (by omega)]
      rfl

namespace Forward

variable {message : Bytes}

/-! ## Both sides of an exchange -/

theorem exchange_tooLong (h : Chunk.maxLength < message.length) (stream : Bytes) :
    exchange message stream = ([], .error .tooLong) := by
  unfold exchange frame?
  rw [if_neg (Nat.not_le.mpr h)]

/-- What is written does not depend on what comes back, and the reply does not depend on what is
written. -/
theorem exchange_fitting (h : message.length ≤ Chunk.maxLength) (stream : Bytes) :
    exchange message stream = (Chunk.wrap message,
      if 2 + Chunk.announced stream ≤ stream.length then
        .ok ((stream.drop 2).take (Chunk.announced stream))
      else .error .ended) := by
  unfold exchange frame? unframe?
  rw [if_pos h, Chunk.take?_eq]
  by_cases hall : 2 + Chunk.announced stream ≤ stream.length
  · rw [if_pos hall, if_pos hall]
    rfl
  · rw [if_neg hall, if_neg hall]
    rfl

/-- The frame of a message is read back, and nothing is left of it. -/
theorem take?_wrap (h : message.length ≤ Chunk.maxLength) :
    Chunk.take? (Chunk.wrap message) = some (message, []) := by
  rw [← List.append_nil (Chunk.wrap message)]
  exact Chunk.take?_wrap_append h []

theorem exchange_wrap {reply : Bytes} (h : message.length ≤ Chunk.maxLength)
    (hreply : reply.length ≤ Chunk.maxLength) (rest : Bytes) :
    exchange message (Chunk.wrap reply ++ rest) = (Chunk.wrap message, .ok reply) := by
  unfold exchange frame? unframe?
  rw [if_pos h, Chunk.take?_wrap_append hreply]
  rfl

/-- Stream framing.  A message of more than 65535 bytes is refused and nothing is written.  Any
other is written as one frame, from which the framing recovers it with nothing left over; and the
reply is the bytes after the first two of the stream, as many as those announce, if there are that
many, whatever follows.  Otherwise the stream has ended too early.  So a reply that the peer frames
is returned as it is. -/
theorem exchange_framed (message stream : Bytes) :
    (65535 < message.length → exchange message stream = ([], .error .tooLong)) ∧
      (message.length ≤ 65535 →
        (exchange message stream).1 = Chunk.wrap message ∧
        Chunk.take? (exchange message stream).1 = some (message, []) ∧
        (∀ reply, (exchange message stream).2 = .ok reply ↔
          2 + Chunk.announced stream ≤ stream.length ∧
            reply = (stream.drop 2).take (Chunk.announced stream)) ∧
        (¬ 2 + Chunk.announced stream ≤ stream.length →
          (exchange message stream).2 = .error .ended) ∧
        ∀ reply rest, reply.length ≤ 65535 →
          exchange message (Chunk.wrap reply ++ rest) = (Chunk.wrap message, .ok reply)) := by
  refine ⟨fun h => exchange_tooLong h stream, fun h => ?_⟩
  rw [exchange_fitting h stream]
  refine ⟨rfl, take?_wrap h, fun reply => ?_, fun hshort => if_neg hshort,
    fun reply rest hreply => exchange_wrap h hreply rest⟩
  dsimp only
  split
  · rename_i hall
    rw [Except.ok.injEq, and_iff_right hall, eq_comm]
  · rename_i hshort
    exact iff_of_false (by simp) fun h => hshort h.1

-- what follows the reply is not read
example : exchange [0x71] [0, 2, 0x72, 0x73, 0x74] = ([0, 1, 0x71], .ok [0x72, 0x73]) := by cbv

end Forward

end DnsGate
