import Mathlib
import DnsGate.Proofs.CacheKey
import DnsGate.Proofs.CacheStore

/-!
The answer cache as a timed map: a finite map from questions, told apart by bare name and type, to
records and the last second in which they are fresh.  The entries of the cache are the bytes of what
the map keeps (`Simulates`), and every call keeps them so.  Main statement: whatever is called in
whatever order, with the clock going forwards or back, the cache answers as the map does, and its
counts are those of the keys of the map and of the answers (`refines_timed_map`).
-/

namespace DnsGate.Cache

open Dns (Record RType)
open Store (ofType)

/-! ## Slots -/

/-- What the cache tells questions apart by: the bare name and the number of the type. -/
structure Slot where
  name : String
  type : RType
deriving DecidableEq, Repr

namespace Slot

/-- The slot of a question. -/
def of (name : String) (type : RType) : Slot := ⟨Rules.bare name, type⟩

/-- The key of the entry in a slot. -/
def key (s : Slot) : String := s.name ++ "|" ++ Text.decimal s.type.toNat

theorem key_of (name : String) (type : RType) : (of name type).key = Cache.key name type := rfl

theorem key_injective : Function.Injective key := by
  intro s s' h
  have hlist : ∀ s : Slot, s.key.toList = s.name.toList ++ '|' :: Nat.toDigits 10 s.type.toNat := by
    intro s
    simp [key, Text.decimal]
  have hchars := congrArg String.toList h
  rw [hlist, hlist] at hchars
  obtain ⟨hname, htype⟩ := bar_digits_inj hchars
  obtain ⟨name, type⟩ := s
  exact congr (congrArg Slot.mk (String.toList_inj.mp hname)) htype

end Slot

/-! ## The map -/

/-- What the map keeps in a slot: records, and the last second in which they are fresh. -/
structure Timed where
  expiry : UInt64
  records : List Record
deriving DecidableEq, Repr

/-- The entry with that. -/
def Timed.encode (t : Timed) : Bytes := encodeEntry t.expiry t.records

/-- What the cache keeps for a question, as the bytes of its entry tell. -/
def Store.kept? (s : Store) (name : String) (type : RType) : Option Timed := do
  let bs ← s.entries.find? (key name type)
  return ⟨← decodeExpiry? bs, decodeRecords bs⟩

abbrev TimedMap := Finmap fun _ : Slot => Timed

namespace TimedMap

variable (m : TimedMap) (now : UInt64) (slot : Slot)

/-- Keeps those records that are not too long, in the place of what the slot had.  No records at all
change nothing. -/
def set (records : List Record) (ttl : UInt32) : TimedMap :=
  if records = [] then m
  else m.insert slot ⟨now + ttl.toUInt64, records.filter fun r => decide r.Fits⟩

/-- Keeps the records of the type for the shortest of their times to live. -/
def storeAnswers (answers : List Record) : TimedMap :=
  match ((ofType slot.type answers).map (·.ttl)).min? with
  | none => m
  | some ttl => m.set now slot (ofType slot.type answers) ttl

/-- Looks records up.  A slot without any that are fresh is left empty. -/
def get : Option (List Record) × TimedMap :=
  match m.lookup slot with
  | some t =>
    if now ≤ t.expiry ∧ t.records ≠ [] then (some t.records, m) else (none, m.erase slot)
  | none => (none, m)

end TimedMap

/-! ## Calls -/

/-- The answer to a look-up. -/
abbrev Answer := Option (List Record)

inductive Call where
  | set (name : String) (type : RType) (records : List Record) (ttl : UInt32)
  | storeAnswers (name : String) (type : RType) (answers : List Record)
  | get (name : String) (type : RType)
  | clear

/-- The records that a call hands over. -/
def Call.records : Call → List Record
  | .set _ _ records _ => records
  | .storeAnswers _ _ answers => answers
  | .get _ _ => []
  | .clear => []

/-- Carries out a call at a time; look-ups have an answer. -/
def Store.perform (s : Store) (now : UInt64) : Call → Option Answer × Store
  | .set name type records ttl => (none, s.set now name type records ttl)
  | .storeAnswers name type answers => (none, s.storeAnswers now name type answers)
  | .get name type => (some (s.get now name type).1, (s.get now name type).2)
  | .clear => (none, s.clear)

def TimedMap.perform (m : TimedMap) (now : UInt64) : Call → Option Answer × TimedMap
  | .set name type records ttl => (none, m.set now (.of name type) records ttl)
  | .storeAnswers name type answers => (none, m.storeAnswers now (.of name type) answers)
  | .get name type => (some (m.get now (.of name type)).1, (m.get now (.of name type)).2)
  | .clear => (none, ∅)

/-- Carries out calls, each at the time that the clock then shows, and collects the answers. -/
def run {S : Type} (perform : S → UInt64 → Call → Option Answer × S) (s : S) :
    List (UInt64 × Call) → List Answer × S
  | [] => ([], s)
  | (now, c) :: cs =>
    let (answer, s) := perform s now c
    let (answers, s) := run perform s cs
    (answer.toList ++ answers, s)

/-! ## Entries -/

/-- The records of an entry are read back. -/
def Timed.Readable (t : Timed) : Prop := ∀ r ∈ t.records, r.Recovered ∧ r.Fits

theorem Timed.Readable.decodeRecords {t : Timed} (h : t.Readable) :
    decodeRecords t.encode = t.records := by
  rw [Timed.encode, decodeRecords_encodeEntry _ fun r hr => (h r hr).1]
  exact List.filter_eq_self.mpr fun r hr => decide_eq_true (h r hr).2

theorem Timed.Readable.freshRecords {t : Timed} (h : t.Readable) (now : UInt64) :
    Store.freshRecords now t.encode = if now ≤ t.expiry then t.records else [] := by
  unfold Store.freshRecords
  rw [h.decodeRecords, Timed.encode, decodeExpiry?_encodeEntry]

/-- The entries of the cache are the bytes of what the map keeps. -/
structure Simulates (entries : Data.Table Bytes) (m : TimedMap) : Prop where
  entry : ∀ slot, entries.find? slot.key = (m.lookup slot).map Timed.encode
  keyed : ∀ k bs, entries.find? k = some bs → ∃ slot, k = Slot.key slot
  readable : ∀ slot t, m.lookup slot = some t → t.Readable

section Entries

variable {entries : Data.Table Bytes} {m : TimedMap} {slot : Slot}

theorem simulates_empty : Simulates .empty ∅ := by
  refine ⟨fun slot => rfl, ?_, ?_⟩
  · intro k bs h
    cases h
  · intro slot t h
    rw [Finmap.lookup_empty] at h
    cases h

theorem Simulates.insert (h : Simulates entries m) {records : List Record}
    (hread : ∀ r ∈ records, r.Recovered) (slot : Slot) (expiry : UInt64) :
    Simulates (entries.insert slot.key (encodeEntry expiry records))
      (m.insert slot ⟨expiry, records.filter fun r => decide r.Fits⟩) := by
  refine ⟨?_, ?_, ?_⟩
  · intro slot'
    rw [Data.Table.find?_insert]
    by_cases hslot : slot' = slot
    · rw [hslot, if_pos rfl, Finmap.lookup_insert, Option.map_some, Timed.encode,
        encodeEntry_filter]
    · rw [if_neg (Slot.key_injective.ne hslot), Finmap.lookup_insert_of_ne _ hslot, h.entry]
  · intro k bs hk
    rw [Data.Table.find?_insert] at hk
    split at hk
    · exact ⟨slot, ‹_›⟩
    · exact h.keyed k bs hk
  · intro slot' t ht
    by_cases hslot : slot' = slot
    · rw [hslot, Finmap.lookup_insert] at ht
      cases ht
      intro r hr
      obtain ⟨hmem, hfits⟩ := List.mem_filter.mp hr
      exact ⟨hread r hmem, of_decide_eq_true hfits⟩
    · rw [Finmap.lookup_insert_of_ne _ hslot] at ht
      exact h.readable slot' t ht

theorem Simulates.erase (h : Simulates entries m) (slot : Slot) :
    Simulates (entries.erase slot.key) (m.erase slot) := by
  refine ⟨?_, ?_, ?_⟩
  · intro slot'
    rw [Data.Table.find?_erase]
    by_cases hslot : slot' = slot
    · rw [hslot, if_pos rfl, Finmap.lookup_erase, Option.map_none]
    · rw [if_neg (Slot.key_injective.ne hslot), Finmap.lookup_erase_ne hslot, h.entry]
  · intro k bs hk
    rw [Data.Table.find?_erase] at hk
    split at hk
    · cases hk
    · exact h.keyed k bs hk
  · intro slot' t ht
    by_cases hslot : slot' = slot
    · rw [hslot, Finmap.lookup_erase] at ht
      cases ht
    · rw [Finmap.lookup_erase_ne hslot] at ht
      exact h.readable slot' t ht

/-- The cache has as many entries as the map has keys. -/
theorem Simulates.size (h : Simulates entries m) : entries.size = m.keys.card := by
  have hkeys : entries.keys.toFinset = m.keys.image Slot.key := by
    ext k
    rw [List.mem_toFinset, ← entries.isSome_find?_iff, Finset.mem_image]
    constructor
    · intro hk
      obtain ⟨bs, hbs⟩ := Option.isSome_iff_exists.mp hk
      obtain ⟨slot, rfl⟩ := h.keyed k bs hbs
      rw [h.entry, Option.isSome_map, Finmap.lookup_isSome] at hk
      exact ⟨slot, Finmap.mem_keys.mpr hk, rfl⟩
    · rintro ⟨slot, hslot, rfl⟩
      rw [h.entry, Option.isSome_map, Finmap.lookup_isSome]
      exact Finmap.mem_keys.mp hslot
  calc entries.size = entries.keys.length := (List.length_map _).symm
    _ = entries.keys.toFinset.card := (List.toFinset_card_of_nodup entries.nodup).symm
    _ = m.keys.card := by rw [hkeys, Finset.card_image_of_injective _ Slot.key_injective]

end Entries

/-! ## Calls on both -/

section Calls

variable {s : Store} {m : TimedMap} {now : UInt64}

theorem Simulates.set (h : Simulates s.entries m) {records : List Record}
    (hread : ∀ r ∈ records, r.Recovered) (name : String) (type : RType) (ttl : UInt32) :
    Simulates (s.set now name type records ttl).entries (m.set now (.of name type) records ttl) := by
  unfold Store.set TimedMap.set
  by_cases hnil : records = []
  · rw [if_pos (List.isEmpty_iff.mpr hnil), if_pos hnil]
    exact h
  · rw [if_neg (mt List.isEmpty_iff.mp hnil), if_neg hnil]
    exact h.insert hread (.of name type) _

theorem Simulates.storeAnswers (h : Simulates s.entries m) {answers : List Record}
    (hread : ∀ r ∈ answers, r.Recovered) (name : String) (type : RType) :
    Simulates (s.storeAnswers now name type answers).entries
      (m.storeAnswers now (.of name type) answers) := by
  have hmatching : ∀ r ∈ ofType type answers, r.Recovered := fun r hr =>
    hread r (List.mem_of_mem_filter hr)
  show Simulates
    (match ((ofType type answers).map Record.ttl).min? with
      | none => s
      | some ttl => s.set now name type (ofType type answers) ttl).entries
    (match ((ofType type answers).map Record.ttl).min? with
      | none => m
      | some ttl => m.set now (.of name type) (ofType type answers) ttl)
  cases ((ofType type answers).map Record.ttl).min? with
  | none => exact h
  | some ttl => exact h.set hmatching name type ttl

/-- A look-up in a slot. -/
theorem TimedMap.get_some {slot : Slot} {t : Timed} (h : m.lookup slot = some t) :
    m.get now slot =
      if now ≤ t.expiry ∧ t.records ≠ [] then (some t.records, m) else (none, m.erase slot) := by
  unfold get
  rw [h]

theorem TimedMap.get_none {slot : Slot} (h : m.lookup slot = none) :
    m.get now slot = (none, m) := by
  unfold get
  rw [h]

variable (now) in
theorem Simulates.get (h : Simulates s.entries m) (name : String) (type : RType) :
    ∃ answer after m', s.get now name type = (answer, after) ∧
      m.get now (.of name type) = (answer, m') ∧ Simulates after.entries m' ∧
      after.hits = s.hits + [answer].countP (·.isSome) ∧
      after.misses = s.misses + [answer].countP (·.isNone) := by
  have hentry := h.entry (.of name type)
  rw [Slot.key_of] at hentry
  cases hslot : m.lookup (.of name type) with
  | none =>
    rw [hslot] at hentry
    exact ⟨none, _, m, Store.get_missing hentry, TimedMap.get_none hslot, h, rfl, rfl⟩
  | some t =>
    rw [hslot] at hentry
    have hread := (h.readable _ t hslot).freshRecords now
    cases hfresh : Store.freshRecords now t.encode with
    | nil =>
      have hstale : ¬ (now ≤ t.expiry ∧ t.records ≠ []) := by
        rintro ⟨hle, hne⟩
        rw [if_pos hle, hfresh] at hread
        exact hne hread.symm
      refine ⟨none, _, m.erase (.of name type), Store.get_stale hentry hfresh, ?_,
        h.erase (.of name type), rfl, rfl⟩
      rw [TimedMap.get_some hslot, if_neg hstale]
    | cons r rs =>
      rw [hfresh] at hread
      have hle : now ≤ t.expiry := by
        by_contra hle
        rw [if_neg hle] at hread
        cases hread
      rw [if_pos hle] at hread
      have hne : t.records ≠ [] := hread ▸ List.cons_ne_nil r rs
      refine ⟨some (r :: rs), _, m, Store.get_fresh hentry hfresh, ?_, h, rfl, rfl⟩
      rw [TimedMap.get_some hslot, if_pos ⟨hle, hne⟩, hread]

variable (now) in
/-- Every call keeps the entries those of the map, and has the same answer. -/
theorem Simulates.perform (h : Simulates s.entries m) {c : Call}
    (hread : ∀ r ∈ c.records, r.Recovered) :
    ∃ answer after m', s.perform now c = (answer, after) ∧
      m.perform now c = (answer, m') ∧ Simulates after.entries m' ∧
      after.hits = s.hits + answer.toList.countP (·.isSome) ∧
      after.misses = s.misses + answer.toList.countP (·.isNone) := by
  cases c with
  | set name type records ttl =>
    obtain ⟨hhits, hmisses⟩ := s.set_counts now name type records ttl
    exact ⟨none, _, _, rfl, rfl, h.set hread name type ttl, hhits, hmisses⟩
  | storeAnswers name type answers =>
    obtain ⟨hhits, hmisses⟩ := s.storeAnswers_counts now name type answers
    exact ⟨none, _, _, rfl, rfl, h.storeAnswers hread name type, hhits, hmisses⟩
  | get name type =>
    obtain ⟨answer, after, m', hget, hget', hsim, hhits, hmisses⟩ := h.get now name type
    refine ⟨some answer, after, m', ?_, ?_, hsim, hhits, hmisses⟩
    · rw [Store.perform, hget]
    · rw [TimedMap.perform, hget']
  | clear => exact ⟨none, _, ∅, rfl, rfl, simulates_empty, rfl, rfl⟩

/-! ## Runs -/

theorem run_cons {S : Type} {perform : S → UInt64 → Call → Option Answer × S} {s between after : S}
    {now : UInt64} {c : Call} {cs : List (UInt64 × Call)} {answer : Option Answer}
    {answers : List Answer} (hc : perform s now c = (answer, between))
    (hcs : run perform between cs = (answers, after)) :
    run perform s ((now, c) :: cs) = (answer.toList ++ answers, after) := by
  rw [run, hc]
  dsimp only
  rw [hcs]

theorem Simulates.run (h : Simulates s.entries m) {calls : List (UInt64 × Call)}
    (hread : ∀ c ∈ calls, ∀ r ∈ c.2.records, r.Recovered) :
    ∃ answers after m', run Store.perform s calls = (answers, after) ∧
      run TimedMap.perform m calls = (answers, m') ∧ Simulates after.entries m' ∧
      after.hits = s.hits + answers.countP (·.isSome) ∧
      after.misses = s.misses + answers.countP (·.isNone) := by
  induction calls generalizing s m with
  | nil => exact ⟨[], s, m, rfl, rfl, h, rfl, rfl⟩
  | cons call calls ih =>
    obtain ⟨now, c⟩ := call
    obtain ⟨hc, hcs⟩ := List.forall_mem_cons.mp hread
    obtain ⟨answer, between, m₁, hperform, hperform', hsim, hhits, hmisses⟩ := h.perform now hc
    obtain ⟨answers, after, m₂, hrun, hrun', hsim', hhits', hmisses'⟩ := ih hsim hcs
    refine ⟨answer.toList ++ answers, after, m₂, run_cons hperform hrun,
      run_cons hperform' hrun', hsim', ?_, ?_⟩
    · rw [hhits', hhits, List.countP_append, Nat.add_assoc]
    · rw [hmisses', hmisses, List.countP_append, Nat.add_assoc]

theorem Simulates.kept? (h : Simulates s.entries m) (name : String) (type : RType) :
    s.kept? name type = m.lookup (.of name type) := by
  unfold Store.kept?
  rw [← Slot.key_of, h.entry]
  cases hslot : m.lookup (.of name type) with
  | none => rfl
  | some t =>
    rw [Option.map_some, Option.bind_eq_bind, Option.bind_some,
      (h.readable _ t hslot).decodeRecords, Timed.encode, decodeExpiry?_encodeEntry]
    rfl

/-- The cache is a timed map.  In every run of calls, each at any time, it gives the answers that
the map gives and keeps what the map keeps; it has an entry for every key of the map, as many hits
as look-ups that found records, and as many misses as other look-ups. -/
theorem refines_timed_map (calls : List (UInt64 × Call))
    (hread : ∀ c ∈ calls, ∀ r ∈ c.2.records, r.Recovered) :
    ∃ answers s m, Cache.run Store.perform {} calls = (answers, s) ∧
      Cache.run TimedMap.perform ∅ calls = (answers, m) ∧
      (∀ name type, s.kept? name type = m.lookup (.of name type)) ∧
      s.size = m.keys.card ∧
      s.hits = answers.countP (·.isSome) ∧ s.misses = answers.countP (·.isNone) := by
  obtain ⟨answers, s, m, hrun, hrun', hsim, hhits, hmisses⟩ :=
    Simulates.run (s := {}) simulates_empty hread
  rw [Nat.zero_add] at hhits hmisses
  exact ⟨answers, s, m, hrun, hrun', hsim.kept?, hsim.size, hhits, hmisses⟩

end Calls

/-- An address that is kept for a minute, under a name with a capital and a last dot. -/
def addressRecord : Record := .ofIpv4 ⟨[[0x61], [0x74, 0x65, 0x73, 0x74]]⟩ 60 ⟨192, 0, 2, 1⟩

/-- It is looked up in the last second in which it is fresh and in the first in which it is not;
then the clock goes back. -/
def expiringCalls : List (UInt64 × Call) :=
  [(1000, .set "A.test." Dns.RType.a [addressRecord] 60), (1060, .get "a.test" Dns.RType.a),
    (1061, .get "a.test" Dns.RType.a), (1000, .get "a.test" Dns.RType.a)]

example : (run TimedMap.perform ∅ expiringCalls).1 = [some [addressRecord], none, none] := by
  decide +kernel

theorem expiring_calls_refine :
    (∀ c ∈ expiringCalls, ∀ r ∈ c.2.records, r.Recovered) ∧
      ∃ answers s m, run Store.perform {} expiringCalls = (answers, s) ∧
        run TimedMap.perform ∅ expiringCalls = (answers, m) ∧
        (∀ name type, s.kept? name type = m.lookup (.of name type)) ∧
        s.size = m.keys.card ∧
        s.hits = answers.countP (·.isSome) ∧ s.misses = answers.countP (·.isNone) := by
  have hread : ∀ c ∈ expiringCalls, ∀ r ∈ c.2.records, r.Recovered := by decide +kernel
  exact ⟨hread, refines_timed_map expiringCalls hread⟩

end DnsGate.Cache
