import DnsGate.Binary.Chunk
import DnsGate.Dns.Reader
import DnsGate.Dns.Writer

/-!
Cache entries as bytes: eight bytes with the last second in which the entry is fresh, then a chunk
for every record.
-/

namespace DnsGate.Cache

/-- The bytes before the records of an entry. -/
def expiryLength : Nat := 8

/-- The bytes of an entry.  Records that are too long to be written are left out. -/
def encodeEntry (expiry : UInt64) (records : List Dns.Record) : Bytes :=
  BigEndian.encode expiryLength expiry.toNat ++
    (records.filterMap Dns.Record.encode).flatMap Chunk.wrap

/-- The last second in which an entry is fresh, if the bytes hold one. -/
def decodeExpiry? (bs : Bytes) : Option UInt64 :=
  let head := bs.take expiryLength
  if head.length < expiryLength then none else some (UInt64.ofNat (BigEndian.value head))

/-- What a parser makes of the records of an entry. -/
def decodeWith {R : Type} (parse : Bytes → Option R) (bs : Bytes) : List R :=
  Chunk.parseAll parse (bs.drop expiryLength)

/-- The records of an entry. -/
def decodeRecords (bs : Bytes) : List Dns.Record := decodeWith Dns.Record.decode bs

end DnsGate.Cache
