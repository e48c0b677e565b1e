import Mathlib
import DnsGate.Proofs.Matching

/-!
What a refresh of the blocklist depends on.  A generation starts empty and takes in one host after
the other: every host is counted, and its bare name is an entry from then on.  So neither the order
of the sources nor those of them that cannot be read can be told from the generation, and the one
before it leaves no trace.  Main statement: two refreshes from the same readable sources, in
whatever order and from whatever state, block the same names and count the same hosts
(`refresh_by_readable`).
-/

namespace DnsGate.Blocklist

/-- Whether a source gives a text. -/
def readable (read : String → Except SourceError String) (source : String) : Bool :=
  (read source).isOk

section Listed

variable {read : String → Except SourceError String} {sources sources' : List String}

theorem listed_cons (source : String) :
    listed read (source :: sources) = listed read [source] ++ listed read sources := by
  rw [listed, listed, listed, List.flatMap_cons, List.flatMap_singleton]

theorem listed_perm (h : sources.Perm sources') :
    (listed read sources).Perm (listed read sources') :=
  h.flatMap_right _

/-- A source that cannot be read lists nothing. -/
theorem listed_of_not_readable {source : String} (h : readable read source = false) :
    listed read [source] = [] := by
  rw [listed, List.flatMap_singleton]
  cases hread : read source with
  | ok text =>
    rw [readable, hread] at h
    cases h
  | error cause => rfl

theorem listed_readable : listed read (sources.filter (readable read)) = listed read sources := by
  induction sources with
  | nil => rfl
  | cons source sources ih =>
    rw [listed_cons source]
    cases h : readable read source with
    | true => rw [List.filter_cons_of_pos h, listed_cons source, ih]
    | false =>
      rw [List.filter_cons_of_neg (by simp [h]), ih, listed_of_not_readable h, List.nil_append]

end Listed

/-! ## Generations -/

namespace Generation

variable {g : Generation} {read : String → Except SourceError String} {now now' : Int}
  {sources sources' : List String}

theorem count_foldl_addHost (hs : List String) :
    (hs.foldl addHost g).count = g.count + hs.length := by
  induction hs generalizing g with
  | nil => rfl
  | cons h hs ih =>
    rw [List.foldl_cons, ih, List.length_cons]
    exact Nat.add_right_comm _ _ _

/-- Every host is counted, whether or not it is a new entry, or one at all. -/
theorem count_build : (build read now sources).count = (listed read sources).length := by
  show (sources.foldl (addSource read) {}).count = _
  rw [foldl_addSource, count_foldl_addHost]
  exact Nat.zero_add _

/-- A host adds one entry at most. -/
theorem size_addHost (host : String) : (g.addHost host).rules.size ≤ g.rules.size + 1 := by
  show ((g.rules.add? .domain host).getD g.rules).size ≤ g.rules.size + 1
  cases hadd : g.rules.add? .domain host with
  | none => exact Nat.le_succ _
  | some s => exact Nat.le_of_eq (Rules.RuleSet.size_of_add? hadd)

theorem size_foldl_addHost (hs : List String) :
    (hs.foldl addHost g).rules.size ≤ g.rules.size + hs.length := by
  induction hs generalizing g with
  | nil => exact Nat.le_refl _
  | cons h hs ih =>
    calc (hs.foldl addHost (g.addHost h)).rules.size
        ≤ (g.addHost h).rules.size + hs.length := ih
      _ ≤ g.rules.size + 1 + hs.length := Nat.add_le_add_right (size_addHost h) _
      _ = g.rules.size + (h :: hs).length := by rw [List.length_cons]; omega

theorem size_build_le_count :
    (build read now sources).rules.size ≤ (build read now sources).count := by
  rw [count_build]
  show (sources.foldl (addSource read) {}).rules.size ≤ _
  rw [foldl_addSource]
  have hsize := size_foldl_addHost (g := {}) (listed read sources)
  rwa [show ({} : Generation).rules.size = 0 from rfl, Nat.zero_add] at hsize

/-- Hosts in another order make the same entries. -/
theorem mem_build_congr (h : (listed read sources).Perm (listed read sources')) (e : String) :
    e ∈ (build read now sources).rules ↔ e ∈ (build read now' sources').rules := by
  rw [mem_build, mem_build]
  simp only [h.mem_iff]

end Generation

/-! ## Refreshes -/

namespace Manager

/-- No name and no count tells the blocklists of two managers apart. -/
def Alike (m m' : Manager) : Prop :=
  (∀ name, m.blocks name = m'.blocks name) ∧ m.generation.count = m'.generation.count

variable {read : String → Except SourceError String} {m m' : Manager} {now now' : Int}

theorem refresh_alike (h : (listed read m.sources).Perm (listed read m'.sources)) :
    (m.refresh read now).2.Alike (m'.refresh read now').2 := by
  refine ⟨Rules.RuleSet.lists_congr (Generation.mem_build_congr h), ?_⟩
  show (Generation.build read now m.sources).count = (Generation.build read now' m'.sources).count
  rw [Generation.count_build, Generation.count_build, h.length_eq]

/-- A refresh depends on the readable sources alone.  A manager with any other generation, refreshed
at any other time from the same sources in another order, or from those of them that can be read,
blocks the same names and has the same count.  This is the number of hosts that the readable sources
list, it is no less than that of the entries, and it is what the refresh tells. -/
theorem refresh_by_readable (read : String → Except SourceError String) (m : Manager) (now : Int) :
    let after := (m.refresh read now).2
    (∀ (m' : Manager) (now' : Int), m'.sources.Perm m.sources →
        (m'.refresh read now').2.Alike after) ∧
      (∀ (m' : Manager) (now' : Int), m'.sources = m.sources.filter (readable read) →
        (m'.refresh read now').2.Alike after) ∧
      after.generation.count = (listed read m.sources).length ∧
      after.generation.rules.size ≤ after.generation.count ∧
      (m.refresh read now).1 = after.generation.count := by
  refine ⟨?_, ?_, Generation.count_build, Generation.size_build_le_count, rfl⟩
  · intro m' now' hperm
    exact refresh_alike (listed_perm hperm)
  · intro m' now' hreadable
    apply refresh_alike
    rw [hreadable, listed_readable]

end Manager

/-! ## Two lists and a lost one -/

/-- Two of three sources can be read.  The first lists one name in three ways, and the root. -/
def twoLists : String → Except SourceError String
  | "/hosts/ads" => .ok "0.0.0.0 Ads.test\n0.0.0.0 ads.test\n:: ads.test.\n:: .\n"
  | "/hosts/spam" => .ok "# spam\n0.0.0.0 spam.test # all of it\n"
  | source => .error (.unreachable source)

/-- A generation that the refreshes leave behind. -/
def staleGeneration : Generation := .build (fun _ => .ok "0.0.0.0 old.test\n") 7 ["/hosts/old"]

/-- Of the five hosts that are counted, three say one name and one says none: two are entries. -/
theorem twoLists_refreshed :
    let m : Manager := ⟨{}, ["/hosts/ads", "/hosts/lost", "/hosts/spam"], 3600, true⟩
    let turned : Manager :=
      ⟨staleGeneration, ["/hosts/spam", "/hosts/ads", "/hosts/lost"], 60, false⟩
    let pruned : Manager := ⟨staleGeneration, ["/hosts/ads", "/hosts/spam"], 60, false⟩
    turned.sources.Perm m.sources ∧ pruned.sources = m.sources.filter (readable twoLists) ∧
      (turned.refresh twoLists 2000).2.Alike (m.refresh twoLists 1000).2 ∧
      (pruned.refresh twoLists 3000).2.Alike (m.refresh twoLists 1000).2 ∧
      (m.refresh twoLists 1000).1 = 5 ∧
      (m.refresh twoLists 1000).2.generation.rules.size = 2 := by
  intro m turned pruned
  have hperm : turned.sources.Perm m.sources := by decide
  have hreadable : pruned.sources = m.sources.filter (readable twoLists) := by decide
  obtain ⟨hturned, hpruned, hcount, -, htold⟩ := Manager.refresh_by_readable twoLists m 1000
  refine ⟨hperm, hreadable, hturned turned 2000 hperm, hpruned pruned 3000 hreadable, ?_,
    by decide +kernel⟩
  rw [htold, hcount]
  decide

end DnsGate.Blocklist
