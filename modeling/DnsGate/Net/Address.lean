import DnsGate.Binary.Utf8
import DnsGate.Text.Digits

/-!
Internet addresses, version 4 and version 6, and their text.  An IPv6 text has its longest run of
two or more zero groups replaced by `::` (the first one of equal length), lower-case digits without
leading zeros, and ends in dotted form for addresses mapped from version 4.
-/

namespace DnsGate.Net

/-! ## Addresses -/

/-- An IPv4 address, by its octets. -/
structure Ipv4 where
  a : UInt8
  b : UInt8
  c : UInt8
  d : UInt8
deriving DecidableEq, Repr

/-- An IPv6 address, by its eight groups of sixteen bits. -/
structure Ipv6 where
  groups : Vector UInt16 8
deriving DecidableEq, Repr

/-- An address of either version. -/
inductive Ip where
  | v4 (ip : Ipv4)
  | v6 (ip : Ipv6)
deriving DecidableEq, Repr

namespace Ipv4

def octets (ip : Ipv4) : Bytes := [ip.a, ip.b, ip.c, ip.d]

def ofOctets? : Bytes → Option Ipv4
  | [a, b, c, d] => some ⟨a, b, c, d⟩
  | _ => none

/-- The dotted text. -/
def text (ip : Ipv4) : String :=
  ".".intercalate (ip.octets.map (fun o => Text.decimal o.toNat))

end Ipv4

namespace Ipv6

/-- The address with these groups, if they are eight. -/
def ofGroups? (gs : List UInt16) : Option Ipv6 :=
  if h : gs.length = 8 then some ⟨⟨gs.toArray, by simpa using h⟩⟩ else none

/-- The sixteen octets, the high one of every group first. -/
def octets (ip : Ipv6) : Bytes :=
  ip.groups.toList.flatMap (fun (g : UInt16) => [(g >>> 8).toUInt8, g.toUInt8])

/-- Pairs of octets as groups. -/
def groupsOf : Bytes → List UInt16
  | h :: l :: rest => (h.toUInt16 <<< 8 ||| l.toUInt16) :: groupsOf rest
  | _ => []

def ofOctets? (bs : Bytes) : Option Ipv6 :=
  if bs.length = 16 then ofGroups? (groupsOf bs) else none

/-- The address mapped from version 4, for the groups `::ffff:a.b.c.d`. -/
def mapped? (ip : Ipv6) : Option Ipv4 :=
  match ip.octets with
  | [0, 0, 0, 0, 0, 0, 0, 0, 0, 0, 0xFF, 0xFF, a, b, c, d] => some ⟨a, b, c, d⟩
  | _ => none

/-- Where the longest run of zero groups starts and how long it is; of equal runs the first. -/
def longestZeros (gs : List UInt16) : Nat × Nat :=
  (List.range gs.length).foldl (fun best i =>
    let run := ((gs.drop i).takeWhile (· == 0)).length
    if best.2 < run then (i, run) else best) (0, 0)

/-- Groups as lower-case hexadecimal numbers between colons. -/
def groupsText (gs : List UInt16) : String :=
  ":".intercalate (gs.map (fun g => String.ofList (Nat.toDigits 16 g.toNat)))

def text (ip : Ipv6) : String :=
  match ip.mapped? with
  | some v4 => "::ffff:" ++ v4.text
  | none =>
    let gs := ip.groups.toList
    let (start, len) := longestZeros gs
    if 1 < len then groupsText (gs.take start) ++ "::" ++ groupsText (gs.drop (start + len))
    else groupsText gs

end Ipv6

def Ip.text : Ip → String
  | .v4 ip => ip.text
  | .v6 ip => ip.text

/-! ## Reading -/

/-- Reads the longest run of digits of a base: its value and what follows.  A run is refused when
it is empty, has more than `most` digits, or starts with a zero of several where `zeros` is
false. -/
def readNumber (base most : Nat) (zeros : Bool) (cs : List Char) : Option (Nat × List Char) :=
  let digits := cs.takeWhile (fun c => (Text.digit? base c).isSome)
  if digits.length ≤ most && (zeros || digits.length == 1 || digits.head? != some '0') then
    (Text.readNat? base digits).map (·, cs.drop digits.length)
  else none

/-- The rest after one given character. -/
def readChar (c : Char) : List Char → Option (List Char)
  | [] => none
  | d :: cs => if d = c then some cs else none

/-- Reads a dotted IPv4 address: four decimal numbers of at most three digits, below 256, without
leading zeros. -/
def readIpv4 (cs : List Char) : Option (Ipv4 × List Char) := do
  let octet (cs : List Char) : Option (UInt8 × List Char) := do
    let (n, cs) ← readNumber 10 3 false cs
    if n < 256 then some (UInt8.ofNat n, cs) else none
  let (a, cs) ← octet cs
  let (b, cs) ← octet (← readChar '.' cs)
  let (c, cs) ← octet (← readChar '.' cs)
  let (d, cs) ← octet (← readChar '.' cs)
  some (⟨a, b, c, d⟩, cs)

/-- Reads at most `room` groups, each after a colon but the first of the run.  The last two may be
written as an IPv4 address, which ends the run; the flag tells whether they were. -/
def readGroups : (room : Nat) → (first : Bool) → List Char → List UInt16 × Bool × List Char
  | 0, _, cs => ([], false, cs)
  | room + 1, first, cs =>
    let body := if first then some cs else readChar ':' cs
    let dotted := if 0 < room then body.bind readIpv4 else none
    match dotted with
    | some (v4, rest) => (Ipv6.groupsOf v4.octets, true, rest)
    | none =>
      match body.bind (readNumber 16 4 true) with
      | some (g, rest) =>
        let (gs, flag, rest) := readGroups room false rest
        (UInt16.ofNat g :: gs, flag, rest)
      | none => ([], false, cs)

/-- Reads an IPv6 address; `::` stands for one zero group or more. -/
def readIpv6 (cs : List Char) : Option (Ipv6 × List Char) :=
  let (head, dotted, rest) := readGroups 8 true cs
  if head.length = 8 then (Ipv6.ofGroups? head).map (·, rest)
  else if dotted then none
  else do
    let rest ← readChar ':' (← readChar ':' rest)
    let (tail, _, rest) := readGroups (7 - head.length) true rest
    let zeros := List.replicate (8 - head.length - tail.length) 0
    (Ipv6.ofGroups? (head ++ zeros ++ tail)).map (·, rest)

/-- The address a text writes, of either version. -/
def Ip.parse? (s : String) : Option Ip :=
  match readIpv4 s.toList with
  | some (ip, []) => some (.v4 ip)
  | _ =>
    match readIpv6 s.toList with
    | some (ip, []) => some (.v6 ip)
    | _ => none

end DnsGate.Net
