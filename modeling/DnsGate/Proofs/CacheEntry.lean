import Mathlib.Data.List.Basic
import DnsGate.Cache.Codec

/-!
Cache entries are read back.  The expiry is always that of the entry; of the records those come back
that can be written, provided that a record is read as it was written (`Record.Recovered`).  Main
statement: an entry is read as its expiry and those records in order, and written again it is the
same bytes (`entry_round_trips`).
-/

namespace DnsGate

/-! ## Chunks -/

namespace Chunk

variable {R : Type} {parse : Bytes → Option R}

theorem parseAll_nil : parseAll parse [] = [] := by
  rw [parseAll]
  rfl

theorem parseAll_wrap_append {bs rest : Bytes} {r : R} (hlen : bs.length ≤ maxLength)
    (hr : parse bs = some r) : parseAll parse (wrap bs ++ rest) = r :: parseAll parse rest := by
  have htake := take?_wrap_append hlen rest
  rw [parseAll]
  split
  · rename_i hnone
    rw [htake] at hnone
    cases hnone
  · rename_i body rest' hsome
    rw [htake] at hsome
    cases hsome
    rw [hr]

/-- Chunks written one after the other are read in the same order. -/
theorem parseAll_flatMap_wrap {write : R → Option Bytes} {rs : List R}
    (h : ∀ r ∈ rs, ∀ bs, write r = some bs → bs.length ≤ maxLength ∧ parse bs = some r) :
    parseAll parse ((rs.filterMap write).flatMap wrap) = rs.filter fun r => (write r).isSome := by
  induction rs with
  | nil => exact parseAll_nil
  | cons r rs ih =>
    have hrest := ih fun r' hr' => h r' (List.mem_cons_of_mem _ hr')
    cases hr : write r with
    | none => rw [List.filterMap_cons_none hr, hrest, List.filter_cons_of_neg (by simp [hr])]
    | some bs =>
      obtain ⟨hlen, hread⟩ := h r List.mem_cons_self bs hr
      rw [List.filterMap_cons_some hr, List.flatMap_cons, parseAll_wrap_append hlen hread, hrest,
        List.filter_cons_of_pos (by simp [hr])]

end Chunk

/-! ## Records -/

namespace Dns.Writer

theorem all_cons (w : Writer) (ws : List Writer) (s : WriteState) :
    (all (w :: ws) s).1 = (w s).1 ++ (all ws (w s).2).1 := rfl

theorem sized_fst (w : Writer) (s : WriteState) :
    (sized w s).1 = BigEndian.encode 2 (w { s with offset := s.offset + 2 }).1.length ++
      (w { s with offset := s.offset + 2 }).1 := rfl

end Dns.Writer

namespace Dns.Record

/-- The encoding of the record alone is short enough for a chunk. -/
def Fits (r : Record) : Prop := (Writer.record r ⟨0, []⟩).1.length ≤ 65535

instance (r : Record) : Decidable r.Fits := inferInstanceAs (Decidable (_ ≤ _))

/-- The record is read from its encoding. -/
def Recovered (r : Record) : Prop := ∀ bs, r.encode = some bs → decode bs = some r

instance (r : Record) : Decidable r.Recovered :=
  decidable_of_iff (r.encode.all (fun bs => decide (decode bs = some r)) = true) (by
    unfold Recovered
    cases r.encode with
    | none => simp
    | some bs => simp)

theorem isSome_encode (r : Record) : r.encode.isSome = decide r.Fits := by
  unfold encode
  dsimp only
  split
  · rename_i h
    exact (decide_eq_true h).symm
  · rename_i h
    exact (decide_eq_false h).symm

theorem encode_length {r : Record} {bs : Bytes} (h : r.encode = some bs) :
    bs.length ≤ Chunk.maxLength := by
  unfold encode at h
  dsimp only at h
  split at h
  · cases h
    assumption
  · cases h

/-- A record of the root with data that are kept as they are takes eleven bytes more than the
data. -/
theorem fits_raw_iff {type «class» : UInt16} {ttl : UInt32} {bs : Bytes} :
    (⟨.root, type, «class», ttl, .raw bs⟩ : Record).Fits ↔ bs.length ≤ 65524 := by
  have hname : (Writer.name .root ⟨0, []⟩).1.length = 1 := rfl
  have hdata (s : WriteState) : (Writer.data (.raw bs) s).1 = bs := rfl
  have hnumber (width n : Nat) (s : WriteState) : (Writer.number width n s).1.length = width :=
    BigEndian.length_encode width n
  have hend (s : WriteState) : (Writer.all [] s).1 = [] := rfl
  unfold Fits Writer.record
  simp only [Writer.all_cons, Writer.sized_fst, hname, hdata, hnumber, hend, List.length_append,
    BigEndian.length_encode, List.length_nil]
  omega

end Dns.Record

/-! ## Entries -/

namespace Cache

variable (expiry : UInt64) (records : List Dns.Record)

theorem length_expiry : (BigEndian.encode expiryLength expiry.toNat).length = expiryLength :=
  BigEndian.length_encode _ _

theorem decodeExpiry?_encodeEntry : decodeExpiry? (encodeEntry expiry records) = some expiry := by
  have hhead : (encodeEntry expiry records).take expiryLength =
      BigEndian.encode expiryLength expiry.toNat := by
    rw [encodeEntry, List.take_left' (length_expiry expiry)]
  have hvalue : BigEndian.value (BigEndian.encode expiryLength expiry.toNat) = expiry.toNat :=
    BigEndian.value_encode expiry.toNat_lt
  unfold decodeExpiry?
  dsimp only
  rw [hhead, if_neg (by rw [length_expiry]; exact Nat.lt_irrefl _), hvalue, UInt64.ofNat_toNat]

variable {records}

/-- The records that fit come back, in order. -/
theorem decodeRecords_encodeEntry (h : ∀ r ∈ records, r.Recovered) :
    decodeRecords (encodeEntry expiry records) = records.filter fun r => decide r.Fits := by
  have hrest : (encodeEntry expiry records).drop expiryLength =
      (records.filterMap Dns.Record.encode).flatMap Chunk.wrap := by
    rw [encodeEntry, List.drop_left' (length_expiry expiry)]
  rw [decodeRecords, decodeWith, hrest, Chunk.parseAll_flatMap_wrap fun r hr bs hbs =>
    ⟨Dns.Record.encode_length hbs, h r hr bs hbs⟩]
  exact List.filter_congr fun r _ => Dns.Record.isSome_encode r

variable (records)

/-- The records that are too long to be written leave nothing in an entry. -/
theorem encodeEntry_filter :
    encodeEntry expiry (records.filter fun r => decide r.Fits) = encodeEntry expiry records := by
  have hfit : (records.filter fun r => decide r.Fits).filterMap Dns.Record.encode =
      records.filterMap Dns.Record.encode := by
    rw [List.filterMap_filter]
    apply List.filterMap_congr
    intro r _
    rw [← Dns.Record.isSome_encode]
    cases r.encode with
    | none => rfl
    | some bs => rfl
  rw [encodeEntry, hfit, encodeEntry]

variable {records}

/-- Entries round trip.  What an entry is read as is its expiry and, in order, those of its records
that are not too long to be written, wherever the others stand among them; and written again, this
is the entry byte for byte. -/
theorem entry_round_trips (h : ∀ r ∈ records, r.Recovered) :
    let bs := encodeEntry expiry records
    decodeExpiry? bs = some expiry ∧
      decodeRecords bs = (records.filter fun r => decide r.Fits) ∧
      ∀ e, decodeExpiry? bs = some e → encodeEntry e (decodeRecords bs) = bs := by
  intro bs
  have hexpiry : decodeExpiry? bs = some expiry := decodeExpiry?_encodeEntry expiry records
  have hrecords : decodeRecords bs = records.filter fun r => decide r.Fits :=
    decodeRecords_encodeEntry expiry h
  refine ⟨hexpiry, hrecords, fun e he => ?_⟩
  obtain rfl : expiry = e := Option.some.inj (hexpiry.symm.trans he)
  rw [hrecords, encodeEntry_filter]

/-- A record whose encoding is one byte too long for a chunk. -/
def oversized : Dns.Record := ⟨.root, 10, Dns.internet, 60, .raw (List.replicate 65525 0)⟩

/-- The first address of a name. -/
def firstAddress : Dns.Record := .ofIpv4 ⟨[[0x62], [0x74, 0x65, 0x73, 0x74]]⟩ 60 ⟨198, 51, 100, 1⟩

/-- Its second address. -/
def secondAddress : Dns.Record := .ofIpv4 ⟨[[0x62], [0x74, 0x65, 0x73, 0x74]]⟩ 60 ⟨198, 51, 100, 2⟩

/-- The addresses on both sides of a record that is left out come back, and at the last second that
can be written. -/
theorem oversized_left_out :
    (∀ r ∈ [firstAddress, oversized, secondAddress], r.Recovered) ∧
      let bs := encodeEntry (-1) [firstAddress, oversized, secondAddress]
      decodeExpiry? bs = some (-1) ∧ decodeRecords bs = [firstAddress, secondAddress] ∧
        encodeEntry (-1) (decodeRecords bs) = bs := by
  have hlong : ¬ oversized.Fits := by
    rw [oversized, Dns.Record.fits_raw_iff, List.length_replicate]
    decide
  have hnone : oversized.encode = none := by
    rw [← Option.not_isSome_iff_eq_none, Dns.Record.isSome_encode, decide_eq_false hlong]
    exact Bool.false_ne_true
  have hrecovered : ∀ r ∈ [firstAddress, oversized, secondAddress], r.Recovered := by
    have hfirst : firstAddress.Recovered := by decide +kernel
    have hsecond : secondAddress.Recovered := by decide +kernel
    have hskipped : oversized.Recovered := by
      intro bs hbs
      rw [hnone] at hbs
      cases hbs
    simp [hfirst, hsecond, hskipped]
  obtain ⟨hexpiry, hrecords, hagain⟩ := entry_round_trips (-1) hrecovered
  refine ⟨hrecovered, hexpiry, ?_, hagain _ hexpiry⟩
  have hfirst : firstAddress.Fits := by decide +kernel
  have hsecond : secondAddress.Fits := by decide +kernel
  rw [hrecords]
  simp [hfirst, hsecond, hlong]

end Cache

end DnsGate
