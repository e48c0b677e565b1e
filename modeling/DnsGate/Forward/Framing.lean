import DnsGate.Binary.Chunk

/-!
Messages on a stream: each goes as one chunk.  An exchange writes one message and reads one back.
-/

namespace DnsGate.Forward

/-- Why an exchange on a stream fails. -/
inductive StreamError where
  /-- The message does not fit into a frame. -/
  | tooLong
  /-- The stream ended within the reply. -/
  | ended
deriving DecidableEq, Repr

def StreamError.message : StreamError → String
  | .tooLong => "DNS message exceeds 65535 bytes"
  | .ended => "early eof"

/-- The frame of a message; `none` if the message is too long for one. -/
def frame? (message : Bytes) : Option Bytes :=
  if message.length ≤ Chunk.maxLength then some (Chunk.wrap message) else none

theorem frame?_eq_none_iff {message : Bytes} :
    frame? message = none ↔ Chunk.maxLength < message.length := by
  unfold frame?
  split
  · simp only [reduceCtorEq, false_iff]
    omega
  · simp only [true_iff]
    omega

/-- The message in the first frame of a stream; what follows it is not read. -/
def unframe? (stream : Bytes) : Option Bytes := (Chunk.take? stream).map (·.1)

/-- What an exchange writes and what it comes to, given all bytes that the peer sends before it
closes the stream. -/
def exchange (message stream : Bytes) : Bytes × Except StreamError Bytes :=
  match frame? message with
  | none => ([], .error .tooLong)
  | some frame =>
    match unframe? stream with
    | some reply => (frame, .ok reply)
    | none => (frame, .error .ended)

end DnsGate.Forward
