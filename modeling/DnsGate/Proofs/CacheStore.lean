import DnsGate.Cache.Store
import DnsGate.Proofs.CacheEntry

/-!
What look-ups and answers do to the entries of the cache.  A look-up that finds an answer leaves all
entries alone, one that finds none can only throw its own entry away, and an answer that is kept
takes the place of the entry under its key.
-/

namespace DnsGate.Cache.Store

variable {s : Store} {now : UInt64} {name : String} {type : Dns.RType}

/-! ## Look-ups -/

theorem get_missing (h : s.entries.find? (key name type) = none) :
    s.get now name type = (none, { s with misses := s.misses + 1 }) := by
  unfold get
  rw [h]

/-- An entry may be thrown away exactly if it has no fresh records. -/
theorem evictable_iff {bs : Bytes} : evictable now bs = true ↔ freshRecords now bs = [] := by
  unfold evictable freshRecords
  cases decodeExpiry? bs with
  | none => simp
  | some expiry =>
    rw [Option.all_some, Bool.or_eq_true, decide_eq_true_iff, List.isEmpty_iff]
    dsimp only
    split
    · rename_i hfresh
      rw [or_iff_right (UInt64.not_lt.mpr hfresh)]
    · rename_i hstale
      exact iff_of_true (Or.inl (UInt64.not_le.mp hstale)) rfl

/-- The second look at an entry never spares it. -/
theorem get_stale {bs : Bytes} (h : s.entries.find? (key name type) = some bs)
    (hstale : freshRecords now bs = []) :
    s.get now name type =
      (none, { s with entries := s.entries.erase (key name type), misses := s.misses + 1 }) := by
  unfold get
  rw [h]
  dsimp only
  rw [hstale]
  dsimp only
  rw [Data.Table.eraseIf_of_find? h (evictable_iff.mpr hstale)]

theorem get_fresh {bs : Bytes} {r : Dns.Record} {rs : List Dns.Record}
    (h : s.entries.find? (key name type) = some bs) (hfresh : freshRecords now bs = r :: rs) :
    s.get now name type = (some (r :: rs), { s with hits := s.hits + 1 }) := by
  unfold get
  rw [h]
  dsimp only
  rw [hfresh]

theorem freshRecords_ne_nil {bs : Bytes} (h : freshRecords now bs ≠ []) :
    ∃ expiry, decodeExpiry? bs = some expiry ∧ now ≤ expiry ∧
      freshRecords now bs = decodeRecords bs := by
  unfold freshRecords at h ⊢
  cases hexpiry : decodeExpiry? bs with
  | none =>
    rw [hexpiry] at h
    exact absurd rfl h
  | some expiry =>
    rw [hexpiry] at h
    dsimp only at h ⊢
    split at h
    · rename_i hfresh
      exact ⟨expiry, rfl, hfresh, if_pos hfresh⟩
    · exact absurd rfl h

/-- A look-up that finds records has found a fresh entry with some, and leaves the entries alone. -/
theorem get_some {records : List Dns.Record} {after : Store}
    (h : s.get now name type = (some records, after)) :
    ∃ bs expiry, s.entries.find? (key name type) = some bs ∧ decodeExpiry? bs = some expiry ∧
      now ≤ expiry ∧ records = decodeRecords bs ∧ records ≠ [] ∧ after.entries = s.entries := by
  cases hfind : s.entries.find? (key name type) with
  | none =>
    rw [get_missing hfind] at h
    cases h
  | some bs =>
    cases hfresh : freshRecords now bs with
    | nil =>
      rw [get_stale hfind hfresh] at h
      cases h
    | cons r rs =>
      rw [get_fresh hfind hfresh] at h
      cases h
      obtain ⟨expiry, hexpiry, hle, hdecode⟩ :=
        freshRecords_ne_nil (hfresh ▸ List.cons_ne_nil r rs)
      exact ⟨bs, expiry, rfl, hexpiry, hle, hfresh ▸ hdecode, List.cons_ne_nil r rs, rfl⟩

/-- A look-up that finds none leaves no entry under its key, and all others alone. -/
theorem get_none {after : Store} (h : s.get now name type = (none, after)) (k : String) :
    after.entries.find? k = if k = key name type then none else s.entries.find? k := by
  cases hfind : s.entries.find? (key name type) with
  | none =>
    rw [get_missing hfind] at h
    cases h
    split
    · rename_i hk
      rw [hk, hfind]
    · rfl
  | some bs =>
    cases hfresh : freshRecords now bs with
    | nil =>
      rw [get_stale hfind hfresh] at h
      cases h
      exact Data.Table.find?_erase _ _ _
    | cons r rs =>
      rw [get_fresh hfind hfresh] at h
      cases h

/-- A look-up is counted once. -/
theorem get_counts (s : Store) (now : UInt64) (name : String) (type : Dns.RType) :
    (s.get now name type).2.hits + (s.get now name type).2.misses = s.hits + s.misses + 1 := by
  cases hfind : s.entries.find? (key name type) with
  | none =>
    rw [get_missing hfind]
    rfl
  | some bs =>
    cases hfresh : freshRecords now bs with
    | nil =>
      rw [get_stale hfind hfresh]
      rfl
    | cons r rs =>
      rw [get_fresh hfind hfresh]
      exact Nat.add_right_comm _ _ _

/-- What is kept after a look-up was kept before it. -/
theorem find?_of_get {answer : Option (List Dns.Record)} {after : Store} {k : String} {bs : Bytes}
    (h : s.get now name type = (answer, after)) (hk : after.entries.find? k = some bs) :
    s.entries.find? k = some bs := by
  cases answer with
  | none =>
    rw [get_none h] at hk
    split at hk
    · cases hk
    · exact hk
  | some records =>
    obtain ⟨-, -, -, -, -, -, -, hentries⟩ := get_some h
    rwa [hentries] at hk

/-! ## Answers -/

/-- The records of a type among answers. -/
def ofType (type : Dns.RType) (answers : List Dns.Record) : List Dns.Record :=
  answers.filter fun r => r.type = type

/-- An answer without records of its type is not kept. -/
theorem storeAnswers_none {answers : List Dns.Record} (h : ofType type answers = []) :
    s.storeAnswers now name type answers = s := by
  unfold storeAnswers
  dsimp only
  rw [show answers.filter (fun r => r.type = type) = [] from h]
  rfl

/-- Any other answer is kept for the shortest time to live of its records of the type. -/
theorem storeAnswers_some {answers : List Dns.Record} {ttl : UInt32}
    (h : ((ofType type answers).map (·.ttl)).min? = some ttl) :
    (s.storeAnswers now name type answers).entries = s.entries.insert (key name type)
      (encodeEntry (now + ttl.toUInt64) (ofType type answers)) := by
  have hne : (ofType type answers).isEmpty = false := by
    cases hmatch : ofType type answers with
    | nil =>
      rw [hmatch] at h
      cases h
    | cons r rs => rfl
  unfold storeAnswers
  dsimp only
  rw [show answers.filter (fun r => r.type = type) = ofType type answers from rfl, h]
  dsimp only
  rw [set, if_neg (by simp [hne])]

/-- Keeping records leaves the counts alone. -/
theorem set_counts (s : Store) (now : UInt64) (name : String) (type : Dns.RType)
    (records : List Dns.Record) (ttl : UInt32) :
    (s.set now name type records ttl).hits = s.hits ∧
      (s.set now name type records ttl).misses = s.misses := by
  unfold set
  split
  · exact ⟨rfl, rfl⟩
  · exact ⟨rfl, rfl⟩

theorem storeAnswers_counts (s : Store) (now : UInt64) (name : String) (type : Dns.RType)
    (answers : List Dns.Record) :
    (s.storeAnswers now name type answers).hits = s.hits ∧
      (s.storeAnswers now name type answers).misses = s.misses := by
  unfold storeAnswers
  dsimp only
  split
  · exact ⟨rfl, rfl⟩
  · exact set_counts s now name type _ _

theorem exists_ttl {answers : List Dns.Record} (h : ofType type answers ≠ []) :
    ∃ ttl, ((ofType type answers).map (·.ttl)).min? = some ttl := by
  rw [← Option.isSome_iff_exists, List.isSome_min?_iff]
  exact fun hmap => h (List.map_eq_nil_iff.mp hmap)

theorem ttl_le {answers : List Dns.Record} {ttl : UInt32}
    (h : ((ofType type answers).map (·.ttl)).min? = some ttl) :
    ∀ r ∈ ofType type answers, ttl ≤ r.ttl := by
  intro r hr
  exact (List.min?_eq_some_iff.mp h).2 r.ttl (List.mem_map_of_mem hr)

end DnsGate.Cache.Store
