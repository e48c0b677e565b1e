import DnsGate.Cache.Codec
import DnsGate.Cache.Key
import DnsGate.Data.Table

/-!
The answer cache.  Entries are kept as bytes under the key of their question.  A stale entry stays
until it is asked for; there is no other eviction.  Time is in seconds of the wall clock and may go
back.
-/

namespace DnsGate.Cache

/-- The entries, how many look-ups found an answer, and how many did not. -/
structure Store where
  entries : Data.Table Bytes := .empty
  hits : Nat := 0
  misses : Nat := 0

namespace Store

/-- The records of an entry while it is fresh, none after that. -/
def freshRecords (now : UInt64) (bs : Bytes) : List Dns.Record :=
  match decodeExpiry? bs with
  | some expiry => if now ≤ expiry then decodeRecords bs else []
  | none => []

/-- An entry may be thrown away: it is no longer fresh, or has no records. -/
def evictable (now : UInt64) (bs : Bytes) : Bool :=
  (decodeExpiry? bs).all (· < now) || (decodeRecords bs).isEmpty

/-- The answer to a question, if a fresh one is kept.  If there is none, the entry is looked at once
more and thrown away if it still may be. -/
def get (s : Store) (now : UInt64) (name : String) (type : Dns.RType) :
    Option (List Dns.Record) × Store :=
  match s.entries.find? (key name type) with
  | none => (none, { s with misses := s.misses + 1 })
  | some bs =>
    match freshRecords now bs with
    | [] =>
      (none, { s with
        entries := s.entries.eraseIf (key name type) (evictable now), misses := s.misses + 1 })
    | r :: rs => (some (r :: rs), { s with hits := s.hits + 1 })

/-- Keeps an answer for `ttl` seconds.  An answer without records is not kept. -/
def set (s : Store) (now : UInt64) (name : String) (type : Dns.RType) (records : List Dns.Record)
    (ttl : UInt32) : Store :=
  if records.isEmpty then s
  else { s with
    entries := s.entries.insert (key name type) (encodeEntry (now + ttl.toUInt64) records) }

/-- Keeps the records of the asked type for the shortest of their times to live. -/
def storeAnswers (s : Store) (now : UInt64) (name : String) (type : Dns.RType)
    (answers : List Dns.Record) : Store :=
  let matching := answers.filter (fun r => r.type = type)
  match (matching.map (·.ttl)).min? with
  | none => s
  | some ttl => s.set now name type matching ttl

/-- Throws all entries away; the counts stay. -/
def clear (s : Store) : Store := { s with entries := .empty }

def size (s : Store) : Nat := s.entries.size

end Store

end DnsGate.Cache
