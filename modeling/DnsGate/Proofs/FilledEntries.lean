import Mathlib
import DnsGate.Proofs.TimedMap

/-!
Entries of the cache without records.  A call that hands over no record keeps nothing; but records
that are too long to be written are noticed only while the entry is written, and a call with no
others leaves an entry of eight bytes: it is counted, and no look-up is answered from it
(`hollow_entry_kept`).  Main statement: along a run every entry has records, and so is an answer
until it expires, exactly if the run has no such call (`filled_throughout_iff`).
-/

namespace DnsGate.Cache

open Dns (Record RType)
open Store (ofType)

/-! ## Entries with records -/

/-- Every entry has a last second in which it is fresh and at least one record. -/
def Store.Filled (s : Store) : Prop :=
  ∀ k bs, s.entries.find? k = some bs →
    ∃ expiry, decodeExpiry? bs = some expiry ∧ decodeRecords bs ≠ []

theorem filled_empty : Store.Filled {} := by
  intro k bs h
  cases h

section Lookups

variable {s : Store} {name : String} {type : RType} {bs : Bytes}

/-- An entry with records is an answer as long as it is fresh. -/
theorem Store.Filled.get (h : s.Filled) (hk : s.entries.find? (key name type) = some bs) :
    ∃ expiry, decodeExpiry? bs = some expiry ∧
      ∀ now ≤ expiry, (s.get now name type).1 = some (decodeRecords bs) := by
  obtain ⟨expiry, hexpiry, hrecords⟩ := h _ bs hk
  refine ⟨expiry, hexpiry, fun now hnow => ?_⟩
  obtain ⟨r, rs, hcons⟩ := List.exists_cons_of_ne_nil hrecords
  have hfresh : Store.freshRecords now bs = r :: rs := by
    unfold Store.freshRecords
    rw [hexpiry]
    exact (if_pos hnow).trans hcons
  rw [Store.get_fresh hk hfresh, hcons]

/-- An entry without records is never an answer. -/
theorem get_of_decodeRecords_nil (hk : s.entries.find? (key name type) = some bs)
    (hnil : decodeRecords bs = []) (now : UInt64) : (s.get now name type).1 = none := by
  have hstale : Store.freshRecords now bs = [] := by
    by_contra hne
    obtain ⟨-, -, -, hfresh⟩ := Store.freshRecords_ne_nil hne
    exact hne (hfresh.trans hnil)
  rw [Store.get_stale hk hstale]

end Lookups

/-! ## Calls -/

/-- The records that a call wants kept. -/
def Call.kept : Call → List Record
  | .set _ _ records _ => records
  | .storeAnswers _ type answers => ofType type answers
  | .get _ _ => []
  | .clear => []

/-- The call has records to keep, all of them too long to be written. -/
def Call.Hollow (c : Call) : Prop := c.kept ≠ [] ∧ ∀ r ∈ c.kept, ¬ r.Fits

theorem Call.mem_records_of_mem_kept {c : Call} {r : Record} (h : r ∈ c.kept) : r ∈ c.records := by
  cases c with
  | set name type records ttl => exact h
  | storeAnswers name type answers => exact List.mem_of_mem_filter h
  | get name type => cases h
  | clear => cases h

section Perform

variable {s : Store} {now : UInt64} {c : Call}

/-- A call with records to keep puts them in an entry; any other adds none. -/
theorem perform_cases (s : Store) (now : UInt64) (c : Call) :
    (c.kept ≠ [] ∧ ∃ k expiry, (s.perform now c).2.entries =
        s.entries.insert k (encodeEntry expiry c.kept)) ∨
      (c.kept = [] ∧ ∀ k bs, (s.perform now c).2.entries.find? k = some bs →
        s.entries.find? k = some bs) := by
  cases c with
  | set name type records ttl =>
    by_cases hnil : records = []
    · refine Or.inr ⟨hnil, fun k bs hk => ?_⟩
      rwa [Store.perform, Store.set, if_pos (List.isEmpty_iff.mpr hnil)] at hk
    · refine Or.inl ⟨hnil, key name type, now + ttl.toUInt64, ?_⟩
      rw [Store.perform, Store.set, if_neg (mt List.isEmpty_iff.mp hnil)]
      rfl
  | storeAnswers name type answers =>
    by_cases hnil : ofType type answers = []
    · refine Or.inr ⟨hnil, fun k bs hk => ?_⟩
      rwa [Store.perform, Store.storeAnswers_none hnil] at hk
    · obtain ⟨ttl, httl⟩ := Store.exists_ttl hnil
      exact Or.inl ⟨hnil, key name type, now + ttl.toUInt64, Store.storeAnswers_some httl⟩
  | get name type => exact Or.inr ⟨rfl, fun k bs => Store.find?_of_get rfl⟩
  | clear =>
    refine Or.inr ⟨rfl, fun k bs hk => ?_⟩
    cases hk

/-- What a call wants kept leaves no record in its entry just if all of it is too long. -/
theorem decodeRecords_kept (hread : ∀ r ∈ c.records, r.Recovered) (expiry : UInt64) :
    decodeRecords (encodeEntry expiry c.kept) = [] ↔ ∀ r ∈ c.kept, ¬ r.Fits := by
  rw [decodeRecords_encodeEntry _ fun r hr => hread r (Call.mem_records_of_mem_kept hr),
    List.filter_eq_nil_iff]
  simp only [decide_eq_true_eq]

/-- A call keeps all entries filled unless it is hollow. -/
theorem Store.Filled.perform_iff (h : s.Filled) (hread : ∀ r ∈ c.records, r.Recovered) :
    (s.perform now c).2.Filled ↔ ¬ c.Hollow := by
  rcases perform_cases s now c with ⟨hne, k, expiry, hentries⟩ | ⟨hnil, hold⟩
  · have hlong : ¬ c.Hollow ↔ decodeRecords (encodeEntry expiry c.kept) ≠ [] := by
      rw [Call.Hollow, and_iff_right hne, ← decodeRecords_kept hread expiry]
    rw [hlong, Filled, hentries]
    constructor
    · intro hfilled
      obtain ⟨-, -, hrecords⟩ := hfilled k _ (by rw [Data.Table.find?_insert, if_pos rfl])
      exact hrecords
    · intro hrecords k' bs hk
      rw [Data.Table.find?_insert] at hk
      split at hk
      · cases hk
        exact ⟨expiry, decodeExpiry?_encodeEntry expiry c.kept, hrecords⟩
      · exact h k' bs hk
  · exact iff_of_true (fun k bs hk => h k bs (hold k bs hk)) fun hollow => hollow.1 hnil

end Perform

/-! ## Runs -/

/-- A run goes on from where its first call leads. -/
theorem run_cons_snd (s : Store) (now : UInt64) (c : Call) (calls : List (UInt64 × Call)) :
    (run Store.perform s ((now, c) :: calls)).2 =
      (run Store.perform (s.perform now c).2 calls).2 := rfl

/-- The cache is filled at every point of a run if it is at the start and no call is hollow. -/
theorem filled_run_iff {calls : List (UInt64 × Call)} (s : Store)
    (hread : ∀ c ∈ calls, ∀ r ∈ c.2.records, r.Recovered) :
    (∀ cs, cs <+: calls → (run Store.perform s cs).2.Filled) ↔
      s.Filled ∧ ∀ c ∈ calls, ¬ c.2.Hollow := by
  induction calls generalizing s with
  | nil =>
    simp only [List.prefix_nil, forall_eq, List.not_mem_nil, false_imp_iff, implies_true, and_true]
    rfl
  | cons call calls ih =>
    obtain ⟨now, c⟩ := call
    obtain ⟨hc, hcs⟩ := List.forall_mem_cons.mp hread
    have hpoints : (∀ cs, cs <+: (now, c) :: calls → (run Store.perform s cs).2.Filled) ↔
        s.Filled ∧ ∀ cs, cs <+: calls → (run Store.perform (s.perform now c).2 cs).2.Filled := by
      simp only [← run_cons_snd]
      constructor
      · intro h
        exact ⟨h [] List.nil_prefix, fun cs hcs => h _ (List.cons_prefix_cons.mpr ⟨rfl, hcs⟩)⟩
      · rintro ⟨hs, h⟩ cs hpoint
        rcases List.prefix_cons_iff.mp hpoint with rfl | ⟨cs, rfl, hrest⟩
        · exact hs
        · exact h cs hrest
    rw [hpoints, ih _ hcs, List.forall_mem_cons]
    exact and_congr_right fun hs => and_congr_left fun _ => hs.perform_iff hc

/-- When no empty entry is stored.  Along a run from the empty cache every entry has an expiry and
at least one record, at every point of the run, exactly if no call of the run has records to keep
that are all too long to be written.  And in a cache with such entries only, whatever is counted as
an entry is the answer to its question until it expires. -/
theorem filled_throughout_iff (calls : List (UInt64 × Call))
    (hread : ∀ c ∈ calls, ∀ r ∈ c.2.records, r.Recovered) :
    ((∀ cs, cs <+: calls → (Cache.run Store.perform {} cs).2.Filled) ↔
        ∀ c ∈ calls, ¬ c.2.Hollow) ∧
      ∀ s : Store, s.Filled → ∀ name type bs, s.entries.find? (key name type) = some bs →
        ∃ expiry, decodeExpiry? bs = some expiry ∧
          ∀ now ≤ expiry, (s.get now name type).1 = some (decodeRecords bs) := by
  refine ⟨(filled_run_iff {} hread).trans (and_iff_right filled_empty), ?_⟩
  intro s hs name type bs hk
  exact hs.get hk

/-! ## A record that is too long -/

theorem not_fits_oversized : ¬ oversized.Fits := by
  rw [oversized, Record.fits_raw_iff, List.length_replicate]
  decide

/-- It is not written, so there is nothing to recover it from. -/
theorem recovered_oversized : oversized.Recovered := by
  intro bs hbs
  have hwritten : oversized.encode.isSome = true := by rw [hbs, Option.isSome_some]
  rw [Record.isSome_encode] at hwritten
  exact absurd (of_decide_eq_true hwritten) not_fits_oversized

/-- The record is kept beside an address, another name is looked up, and the two are kept again in
their place. -/
def accompaniedCalls : List (UInt64 × Call) :=
  [(1000, .set "b.test" 10 [oversized, firstAddress] 60), (1000, .get "c.test" 10),
    (2000, .set "B.test." 10 [firstAddress, oversized] 60)]

theorem accompanied_filled :
    (∀ c ∈ accompaniedCalls, ∀ r ∈ c.2.records, r.Recovered) ∧
      (∀ cs, cs <+: accompaniedCalls → (run Store.perform {} cs).2.Filled) ∧
      let s := (run Store.perform {} accompaniedCalls).2
      s.size = 1 ∧ ∀ now ≤ 2060, (s.get now "b.test" 10).1 = some [firstAddress] := by
  have hrecovered : firstAddress.Recovered := by decide +kernel
  have hfits : firstAddress.Fits := by decide +kernel
  have hread : ∀ c ∈ accompaniedCalls, ∀ r ∈ c.2.records, r.Recovered := by
    simp [accompaniedCalls, Call.records, recovered_oversized, hrecovered]
  obtain ⟨hpoints, hanswers⟩ := filled_throughout_iff accompaniedCalls hread
  have hfilled : ∀ cs, cs <+: accompaniedCalls → (run Store.perform {} cs).2.Filled := by
    refine hpoints.mpr ?_
    simp [accompaniedCalls, Call.Hollow, Call.kept, hfits]
  have hrecords : decodeRecords (encodeEntry 2060 [firstAddress, oversized]) = [firstAddress] := by
    rw [decodeRecords_encodeEntry _ (by simp [recovered_oversized, hrecovered])]
    simp [hfits, not_fits_oversized]
  refine ⟨hread, hfilled, by decide +kernel, fun now hnow => ?_⟩
  obtain ⟨expiry, hexpiry, hanswer⟩ := hanswers _ (hfilled _ (List.prefix_refl _)) "b.test" 10
    (encodeEntry 2060 [firstAddress, oversized]) rfl
  rw [decodeExpiry?_encodeEntry, Option.some.injEq] at hexpiry
  rw [hanswer now (hexpiry ▸ hnow), hrecords]

/-- The record alone. -/
def hollowCalls : List (UInt64 × Call) := [(1000, .set "a.test" 10 [oversized] 60)]

/-- It leaves an entry that is counted and that no look-up is answered from, at any time. -/
theorem hollow_entry_kept :
    (∀ c ∈ hollowCalls, ∀ r ∈ c.2.records, r.Recovered) ∧
      let s := (run Store.perform {} hollowCalls).2
      ¬ s.Filled ∧ s.size = 1 ∧ ∀ now, (s.get now "a.test" 10).1 = none := by
  have hread : ∀ r ∈ (Call.set "a.test" 10 [oversized] 60).records, r.Recovered := by
    simp [Call.records, recovered_oversized]
  have hlong : ∀ r ∈ (Call.set "a.test" 10 [oversized] 60).kept, ¬ r.Fits := by
    simp [Call.kept, not_fits_oversized]
  have hentry : (run Store.perform {} hollowCalls).2.entries.find? (key "a.test" 10) =
      some (encodeEntry (1000 + 60) [oversized]) := rfl
  have hstep : (run Store.perform {} hollowCalls).2 =
      (Store.perform {} 1000 (.set "a.test" 10 [oversized] 60)).2 := rfl
  refine ⟨by simp [hollowCalls, Call.records, recovered_oversized], ?_, rfl, ?_⟩
  · rw [hstep, filled_empty.perform_iff hread]
    exact not_not_intro ⟨List.cons_ne_nil _ _, hlong⟩
  · exact get_of_decodeRecords_nil hentry ((decodeRecords_kept hread _).mpr hlong)

end DnsGate.Cache
