/-!
Finite tables from text to values.  A table is seen through `find?`; `size` counts its keys.
-/

namespace DnsGate.Data

/-- Keys with values, no key twice. -/
structure Table (V : Type) where
  entries : List (String × V)
  nodup : (entries.map Prod.fst).Nodup

namespace Table

variable {V : Type}

def empty : Table V := ⟨[], List.nodup_nil⟩

instance : Inhabited (Table V) := ⟨empty⟩

def find? (t : Table V) (k : String) : Option V := t.entries.lookup k

def size (t : Table V) : Nat := t.entries.length

def keys (t : Table V) : List String := t.entries.map Prod.fst

/-- The table without a key. -/
def erase (t : Table V) (k : String) : Table V :=
  ⟨t.entries.filter (·.1 ≠ k), t.nodup.sublist (List.filter_sublist.map _)⟩

/-- The table without a key, if the key has a value with a property. -/
def eraseIf (t : Table V) (k : String) (p : V → Bool) : Table V :=
  if (t.find? k).any p then t.erase k else t

/-- The table in which a key has a value. -/
def insert (t : Table V) (k : String) (v : V) : Table V :=
  ⟨(k, v) :: (t.erase k).entries, by
    refine List.nodup_cons.mpr ⟨?_, (t.erase k).nodup⟩
    simp [erase]⟩

@[simp] theorem find?_empty (k : String) : (empty : Table V).find? k = none := rfl

theorem lookup_filter_ne (es : List (String × V)) (k l : String) :
    (es.filter (·.1 ≠ k)).lookup l = if l = k then none else es.lookup l := by
  induction es with
  | nil => simp
  | cons e es ih =>
    obtain ⟨m, v⟩ := e
    by_cases hm : m = k
    · subst hm
      by_cases hl : l = m
      · subst hl; simpa using ih
      · have hb : (l == m) = false := by simpa using hl
        simpa [List.lookup_cons, hb] using ih
    · by_cases hl : l = m
      · subst hl; simp [hm]
      · have hb : (l == m) = false := by simpa using hl
        simpa [List.lookup_cons, hm, hb] using ih

theorem find?_erase (t : Table V) (k l : String) :
    (t.erase k).find? l = if l = k then none else t.find? l := lookup_filter_ne ..

theorem find?_insert (t : Table V) (k l : String) (v : V) :
    (t.insert k v).find? l = if l = k then some v else t.find? l := by
  have h := find?_erase t k l
  simp only [find?] at h ⊢
  by_cases hl : l = k
  · subst hl; simp [insert]
  · have hb : (l == k) = false := by simpa using hl
    simpa [insert, List.lookup_cons, hb, hl] using h

theorem eraseIf_of_find? {t : Table V} {k : String} {v : V} {p : V → Bool}
    (h : t.find? k = some v) (hv : p v = true) : t.eraseIf k p = t.erase k := by
  rw [eraseIf, h, Option.any_some, if_pos hv]

theorem isSome_find?_iff (t : Table V) (k : String) : (t.find? k).isSome ↔ k ∈ t.keys := by
  rw [find?, List.lookup_isSome_iff]
  simp [keys]

end Table

end DnsGate.Data
