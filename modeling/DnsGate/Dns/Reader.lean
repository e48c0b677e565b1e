import DnsGate.Binary.BigEndian
import DnsGate.Dns.Message

/-!
Reading messages and records from bytes.  A name may end in a pointer to an earlier place of the
same bytes; a pointer goes strictly back, so that reading a name ends.
-/

namespace DnsGate.Dns

/-! ## Names -/

/-- How a run of labels ends. -/
inductive LabelEnd where
  | root
  | pointer (target : Nat)
deriving DecidableEq, Repr

/-- A run of labels, how it ends, and the position and the bytes after it. -/
structure LabelRun where
  labels : List Label
  ending : LabelEnd
  pos : Nat
  rest : Bytes

/-- Reads labels up to the root or a pointer.  Where a limit is given, no label length and no
pointer may stand at or after it. -/
def readLabels (limit : Option Nat) (pos : Nat) : Bytes → Option LabelRun
  | [] => none
  | b :: bs =>
    if limit.any (· ≤ pos) then none
    else if b = 0 then some ⟨[], .root, pos + 1, bs⟩
    else if 0xC0 ≤ b then
      match bs with
      | [] => none
      | c :: rest =>
        some ⟨[], .pointer ((b.toNat - 0xC0) * 256 + c.toNat), pos + 2, rest⟩
    else if 0x40 ≤ b then none
    else
      let label := bs.take b.toNat
      if label.length < b.toNat then none
      else do
        let run ← readLabels limit (pos + 1 + b.toNat) (bs.drop b.toNat)
        some { run with labels := label :: run.labels }
termination_by bs => bs.length
decreasing_by simp only [List.length_drop, List.length_cons]; omega

/-- The labels of the name that starts at an earlier place and must not reach `limit`. -/
def labelsAt (whole : Bytes) (limit start : Nat) : Option (List Label) := do
  let run ← readLabels (some limit) start (whole.drop start)
  match run.ending with
  | .root => some run.labels
  | .pointer target =>
    if target < start then do some (run.labels ++ (← labelsAt whole start target)) else none
termination_by start

/-! ## The reader -/

/-- Where reading stands: all bytes, the position, and the bytes from there on. -/
structure Cursor where
  whole : Bytes
  pos : Nat
  rest : Bytes

/-- Readers take what they read off the cursor; `none` is a refusal. -/
abbrev Reader := StateT Cursor Option

namespace Reader

/-- The next `n` bytes. -/
def bytes (n : Nat) : Reader Bytes := fun c =>
  let taken := c.rest.take n
  if taken.length < n then none
  else some (taken, { c with pos := c.pos + n, rest := c.rest.drop n })

/-- The number that the next `width` bytes write. -/
def number (width : Nat) : Reader Nat := do return BigEndian.value (← bytes width)

def u16 : Reader UInt16 := do return UInt16.ofNat (← number 2)
def u32 : Reader UInt32 := do return UInt32.ofNat (← number 4)

/-- A name of at most 255 bytes. -/
def name : Reader Name := fun c => do
  let run ← readLabels none c.pos c.rest
  let labels ← match run.ending with
    | .root => some run.labels
    | .pointer target =>
      if target < c.pos then do some (run.labels ++ (← labelsAt c.whole c.pos target)) else none
  if (Name.mk labels).wireLength ≤ 255 then
    some (⟨labels⟩, { c with pos := run.pos, rest := run.rest })
  else none

/-- Runs a reader on all of some bytes. -/
def run {α : Type} (r : Reader α) (bs : Bytes) : Option α := (r ⟨bs, 0, bs⟩).map (·.1)

/-- Repeats a reader. -/
def times {α : Type} (r : Reader α) : Nat → Reader (List α)
  | 0 => pure []
  | n + 1 => do return (← r) :: (← times r n)

/-! ## Records -/

/-- Cuts data into strings, each after a byte with its length. -/
def strings : Bytes → Option (List Bytes)
  | [] => some []
  | b :: bs =>
    if bs.length < b.toNat then none
    else do some (bs.take b.toNat :: (← strings (bs.drop b.toNat)))
termination_by bs => bs.length
decreasing_by simp only [List.length_drop, List.length_cons]; omega

/-- The options in the data of an extension record: all of them if the last one is complete, none
of them if it is cut off.  Data that ends within a number, or an option longer than all data, is
refused. -/
def options (total : Nat) : Bytes → Option Bool
  | [] => some true
  | [_] => none
  | [_, _] => some false
  | [_, _, _] => none
  | _ :: _ :: h :: l :: bs =>
    let len := h.toNat * 256 + l.toNat
    if total < len then none
    else if bs.length < len then some false
    else options total (bs.drop len)
termination_by bs => bs.length
decreasing_by simp only [List.length_drop, List.length_cons]; omega

/-- Data of a type, given how many bytes it is said to have. -/
def data (type : RType) (len : Nat) : Reader RData :=
  if type = RType.a then do
    match Net.Ipv4.ofOctets? (← bytes 4) with
    | some ip => return .a ip
    | none => failure
  else if type = RType.aaaa then do
    match Net.Ipv6.ofOctets? (← bytes 16) with
    | some ip => return .aaaa ip
    | none => failure
  else if type = RType.ns ∨ type = RType.cname ∨ type = RType.ptr then do
    return .name (← name)
  else if type = RType.mx then do
    return .mx (← u16) (← name)
  else if type = RType.srv then do
    return .srv (← u16) (← u16) (← u16) (← name)
  else if type = RType.soa then do
    return .soa (← name) (← name) ⟨← u32, ← u32, ← u32, ← u32, ← u32⟩
  else if type = RType.txt then do
    match strings (← bytes len) with
    | some ss => return .txt ss
    | none => failure
  else if type = RType.opt then do
    let bs ← bytes len
    match options len bs with
    | some complete => return .raw (if complete then bs else [])
    | none => failure
  else if type = 0 ∨ type = RType.any ∨ type = RType.axfr ∨ type = RType.ixfr then failure
  else do return .raw (← bytes len)

/-- A record.  Its data must have exactly the length that is said.  An extension record belongs to
the root, and the size in place of its class is at least 512. -/
def record : Reader Record := do
  let name ← name
  let type ← u16
  let cls ← u16
  if type = RType.opt ∧ name ≠ Name.root then failure
  let cls := if type = RType.opt then max cls 512 else cls
  let ttl ← u32
  let len ← number 2
  if len = 0 then return ⟨name, type, cls, ttl, .none⟩
  let start := (← get).pos
  let data ← data type len
  if (← get).pos ≠ start + len then failure
  return ⟨name, type, cls, ttl, data⟩

/-! ## Messages -/

def question : Reader Question := do return ⟨← name, ← u16, ← u16⟩

/-- The header and the four section counts. -/
def header : Reader (Header × Nat × Nat × Nat × Nat) := do
  let id ← u16
  let hi ← number 1
  let lo ← number 1
  let h : Header := {
    id
    response := hi.testBit 7
    opcode := hi / 8 % 16
    authoritative := hi.testBit 2
    truncated := hi.testBit 1
    recursionDesired := hi.testBit 0
    recursionAvailable := lo.testBit 7
    authenticData := lo.testBit 5
    checkingDisabled := lo.testBit 4
    rcode := lo % 16 }
  return (h, ← number 2, ← number 2, ← number 2, ← number 2)

/-- Takes the extension record out of the additional records; there may be one. -/
def splitExtension (rs : List Record) : Option (Option Record × List Record) :=
  match rs.filter (·.type = RType.opt) with
  | [] => some (none, rs)
  | [opt] => some (some opt, rs.filter (·.type ≠ RType.opt))
  | _ => none

/-- The response code with the high bits that an extension record carries. -/
def extendedRcode (low : Rcode) : Option Record → Rcode
  | none => low
  | some opt => (opt.ttl >>> 24).toNat * 16 + low

/-- A whole message; bytes after the last record are ignored. -/
def message : Reader Message := do
  let (h, nQuestions, nAnswers, nAuthority, nAdditional) ← header
  let questions ← times question nQuestions
  let answers ← times record nAnswers
  let authority ← times record nAuthority
  match splitExtension (← times record nAdditional) with
  | none => failure
  | some (ext, additional) =>
    return {
      header := { h with rcode := extendedRcode h.rcode ext }
      questions, answers, authority, additional }

end Reader

/-- The record that bytes start with. -/
def Record.decode (bs : Bytes) : Option Record := Reader.run Reader.record bs

/-- The message that bytes start with. -/
def Message.decode (bs : Bytes) : Option Message := Reader.run Reader.message bs

end DnsGate.Dns
