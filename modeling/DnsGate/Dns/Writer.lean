import DnsGate.Binary.BigEndian
import DnsGate.Binary.Width
import DnsGate.Dns.Message

/-!
Writing records and messages as bytes.  A name that ends in labels written before, in the same
order and case, ends in a pointer to their first occurrence instead; only the targets of service
records are written in full.
-/

namespace DnsGate.Dns

/-! ## Writers -/

/-- The ends of the names written so far, with the places where they stand. -/
abbrev Suffixes := List (List Label × Nat)

/-- What a writer has done: how many bytes stand before the next one, and which names it may point
to. -/
structure WriteState where
  offset : Nat
  suffixes : Suffixes

/-- Writers append bytes. -/
abbrev Writer := StateM WriteState Bytes

namespace Writer

def bytes (bs : Bytes) : Writer := do
  modify fun s => { s with offset := s.offset + bs.length }
  return bs

def number (width n : Nat) : Writer := bytes (BigEndian.encode width n)

/-- Writers one after the other. -/
def all : List Writer → Writer
  | [] => return []
  | w :: ws => do
    let bs ← w
    return bs ++ (← all ws)

/-- The first place that a pointer cannot name a suffix written before. -/
def pointerBound : Nat := 0x3FFF

/-- The bytes of a name at an offset and the suffixes known after it.  A suffix is remembered if
the labels of its name end, at `last`, within reach of a pointer.  A name that is not shared holds
no pointer, but later names may point into it. -/
def labels (shared : Bool) (last : Nat) : Suffixes → Nat → List Label → Bytes × Suffixes
  | known, _, [] => ([0], known)
  | known, offset, l :: ls =>
    match known.lookup (l :: ls), shared with
    | some target, true => (BigEndian.encode 2 (0xC000 + target), known)
    | found, _ =>
      let known :=
        if found.isNone && decide (last < pointerBound) then (l :: ls, offset) :: known else known
      let (bs, known) := labels shared last known (offset + 1 + l.length) ls
      (UInt8.ofNat l.length :: l ++ bs, known)

def nameWith (shared : Bool) (n : Name) : Writer := fun s =>
  let last := s.offset + Name.labelsLength n.labels
  let (bs, known) := labels shared last s.suffixes s.offset n.labels
  (bs, ⟨s.offset + bs.length, known⟩)

/-- A name that may end in a pointer. -/
def name : Name → Writer := nameWith true

/-- A name in full, as the targets of service records are written. -/
def fullName : Name → Writer := nameWith false

/-! ## Records -/

def data : RData → Writer
  | .none => bytes []
  | .a ip => bytes ip.octets
  | .aaaa ip => bytes ip.octets
  | .name target => name target
  | .mx preference exchange => all [number 2 preference.toNat, name exchange]
  | .srv priority weight service target =>
    all [number 2 priority.toNat, number 2 weight.toNat, number 2 service.toNat, fullName target]
  | .soa primary contact t =>
    all [name primary, name contact, number 4 t.serial.toNat, number 4 t.refresh.toNat,
      number 4 t.retry.toNat, number 4 t.expire.toNat, number 4 t.minimum.toNat]
  | .txt strings => bytes (strings.flatMap (fun s => UInt8.ofNat s.length :: s))
  | .raw bs => bytes bs

/-- What another writer writes, after the number of its bytes. -/
def sized (w : Writer) : Writer := fun s =>
  let (bs, s) := w { s with offset := s.offset + 2 }
  (BigEndian.encode 2 bs.length ++ bs, s)

def record (r : Record) : Writer :=
  all [name r.name, number 2 r.type.toNat, number 2 r.class.toNat, number 4 r.ttl.toNat,
    sized (data r.data)]

/-! ## Messages -/

/-- The bit of a flag in a byte. -/
def flag (bit : Nat) (b : Bool) : Nat := if b then Width.capacity bit else 0

/-- The twelve bytes of a header, with the numbers of entries in the four sections. -/
def header (h : Header) (questions answers authority additional : Nat) : Bytes :=
  BigEndian.encode 2 h.id.toNat ++
  [UInt8.ofNat (flag 7 h.response + h.opcode % 16 * 8 + flag 2 h.authoritative
      + flag 1 h.truncated + flag 0 h.recursionDesired),
   UInt8.ofNat (flag 7 h.recursionAvailable + flag 5 h.authenticData + flag 4 h.checkingDisabled
      + h.rcode % 16)] ++
  BigEndian.encode 2 questions ++ BigEndian.encode 2 answers ++ BigEndian.encode 2 authority ++
  BigEndian.encode 2 additional

def question (q : Question) : Writer :=
  all [name q.name, number 2 q.type.toNat, number 2 q.class.toNat]

end Writer

/-- The longest record that can be written alone. -/
def maxRecordLength : Nat := 65535

/-- The bytes of a record written alone; `none` if they are too many. -/
def Record.encode (r : Record) : Option Bytes :=
  let bs := (Writer.record r ⟨0, []⟩).1
  if bs.length ≤ maxRecordLength then some bs else none

/-- The bytes of a message that asks one question, recursion desired. -/
def Question.encode (id : UInt16) (q : Question) : Bytes :=
  Writer.header { id, recursionDesired := true } 1 0 0 0 ++ (Writer.question q ⟨12, []⟩).1

end DnsGate.Dns
