import DnsGate.Dns.Reader

/-!
The response code of a message, whose four low bits are in the header and whose other eight are in
the extension record.  Main statement: a message says no error exactly if none of its twelve bits
does (`Message.rcode_eq_noError_iff`).
-/

namespace DnsGate.Dns

/-- A message as its bytes have it: the response code is that in the header, and the extension
record that has the bits above it is among the additional records. -/
def Reader.rawMessage : Reader Message := do
  let (header, nQuestions, nAnswers, nAuthority, nAdditional) ← header
  let questions ← times question nQuestions
  let answers ← times record nAnswers
  let authority ← times record nAuthority
  let additional ← times record nAdditional
  return { header, questions, answers, authority, additional }

theorem Reader.message_eq : message = rawMessage >>= fun raw =>
    match splitExtension raw.additional with
    | none => failure
    | some (ext, additional) => return { raw with
        header := { raw.header with rcode := extendedRcode raw.header.rcode ext }, additional } := by
  unfold rawMessage
  simp only [bind_assoc, pure_bind]
  rfl

/-- A message is what its extension record makes of it. -/
theorem Message.decode_eq (bs : Bytes) : decode bs = (Reader.rawMessage.run bs).bind fun raw =>
    (Reader.splitExtension raw.additional).map fun parts => { raw with
      header := { raw.header with rcode := Reader.extendedRcode raw.header.rcode parts.1 }
      additional := parts.2 } := by
  unfold decode Reader.run
  rw [Reader.message_eq]
  show ((Reader.rawMessage ⟨bs, 0, bs⟩).bind _).map _ = _
  cases Reader.rawMessage ⟨bs, 0, bs⟩ with
  | none => rfl
  | some read =>
    obtain ⟨raw, c⟩ := read
    rw [Option.bind_some, Option.map_some, Option.bind_some]
    dsimp only
    cases Reader.splitExtension raw.additional <;> rfl

/-- The extension record is what the additional records have of its type. -/
theorem Reader.forall_extension_iff {rs others : List Record} {ext : Option Record}
    {P : Record → Prop} (h : splitExtension rs = some (ext, others)) :
    (∀ opt ∈ ext, P opt) ↔ ∀ r ∈ rs, r.type = RType.opt → P r := by
  have hfilter : (∀ r ∈ rs, r.type = RType.opt → P r) ↔
      ∀ r ∈ rs.filter (·.type = RType.opt), P r := by
    simp [List.mem_filter]
  rw [hfilter]
  unfold splitExtension at h
  split at h
  · rename_i hnone
    cases h
    simp [hnone]
  · rename_i opt hone
    cases h
    simp [hone]
  · cases h

theorem Reader.extendedRcode_eq_noError_iff {low : Rcode} {ext : Option Record} :
    extendedRcode low ext = Rcode.noError ↔
      low = Rcode.noError ∧ ∀ opt ∈ ext, opt.ttl >>> 24 = 0 := by
  cases ext with
  | none => simp [extendedRcode]
  | some opt =>
    have hzero : opt.ttl >>> 24 = 0 ↔ (opt.ttl >>> 24).toNat = 0 := UInt32.toNat_inj.symm
    have hsum (high low : Nat) : high * 16 + low = 0 ↔ low = 0 ∧ high = 0 := by omega
    simp only [extendedRcode, Rcode.noError, Option.mem_def, Option.some.injEq, forall_eq', hzero]
    exact hsum _ _

/-- A message says no error if neither its header nor its extension record has a bit of one. -/
theorem Message.rcode_eq_noError_iff {bs : Bytes} {m : Message} (h : decode bs = some m) :
    m.header.rcode = Rcode.noError ↔ ∃ raw, Reader.rawMessage.run bs = some raw ∧
      raw.header.rcode = Rcode.noError ∧
      ∀ r ∈ raw.additional, r.type = RType.opt → r.ttl >>> 24 = 0 := by
  rw [decode_eq] at h
  obtain ⟨raw, hraw, h⟩ := Option.bind_eq_some_iff.mp h
  obtain ⟨⟨ext, others⟩, hsplit, rfl⟩ := Option.map_eq_some_iff.mp h
  rw [Reader.extendedRcode_eq_noError_iff, Reader.forall_extension_iff hsplit]
  constructor
  · intro hnone
    exact ⟨raw, hraw, hnone⟩
  · rintro ⟨raw', hraw', hnone⟩
    obtain rfl : raw = raw' := Option.some.inj (hraw.symm.trans hraw')
    exact hnone

end DnsGate.Dns
