import DnsGate.Program.Launch
import DnsGate.Proofs.CacheEntry
import DnsGate.Proofs.ClockedServing
import DnsGate.Proofs.Matching
import DnsGate.Proofs.SavedSettings

/-!
Which times settings keep within their numbers.  The seconds between two refreshes and the expiry of
a cache entry never exceed 64 bits, whatever the settings are.  The deadline of an attempt can: its
seconds are bounded by the width of an integer in the file alone.  Main statement: up to which
reading of the clock no question makes the program compute an instant that the clock cannot count to
(`times_bounded_iff`).
-/

namespace DnsGate

/-! ## Times without a clock -/

theorem Settings.Blocking.interval_pos (b : Settings.Blocking) : 0 < b.interval := by
  unfold interval defaultHours maxHours
  split <;> omega

theorem Settings.Blocking.interval_fits (b : Settings.Blocking) :
    b.interval < Width.capacity 64 := by
  have hcapacity : maxHours * 3600 < Width.capacity 64 := by decide +kernel
  refine Nat.lt_of_le_of_lt (Nat.mul_le_mul_right 3600 ?_) hcapacity
  split
  · decide
  · exact Nat.min_le_right _ _

namespace Cache

theorem toNat_add_ttl {now : UInt64} (h : now.toNat < Width.capacity 63) (ttl : UInt32) :
    (now + ttl.toUInt64).toNat = now.toNat + ttl.toNat := by
  have hsum : Width.capacity 63 + 2 ^ 32 ≤ 2 ^ 64 := by decide +kernel
  have httl := ttl.toNat_lt
  rw [UInt64.toNat_add, UInt32.toNat_toUInt64, Nat.mod_eq_of_lt (by omega)]

/-- An entry is kept until its time to live has passed, to the second. -/
theorem expiry_of_set {now : UInt64} (h : now.toNat < Width.capacity 63) (store : Store)
    (name : String) (type : Dns.RType) {records : List Dns.Record} (hrecords : records ≠ [])
    (ttl : UInt32) : ∃ bs expiry,
      (store.set now name type records ttl).entries.find? (key name type) = some bs ∧
        decodeExpiry? bs = some expiry ∧ expiry.toNat = now.toNat + ttl.toNat := by
  refine ⟨_, now + ttl.toUInt64, ?_, decodeExpiry?_encodeEntry _ records, toNat_add_ttl h ttl⟩
  rw [Store.set, if_neg (by simpa using hrecords), Data.Table.find?_insert, if_pos rfl]

end Cache

/-! ## Deadlines -/

namespace Program

open Forward (Clock Names)
open Serve (Surroundings Clocked)

/-- Up to a reading of the clock, no question and no message makes the program compute an instant
that the clock cannot count to, whatever has been asked before and however forwarders and tools
behave. -/
def Plan.EnduresThrough (p : Plan) (instant : Nat) : Prop :=
  ∀ (s : Surroundings) (now : UInt64) (st : Serve.State) (clock : Clock) (o : Forward.Overflow),
    (∀ q, (Clocked.resolveQuestion p.wiring s now q).run (st, clock) = .error o →
      instant < o.time) ∧
    ∀ limit bs, (Clocked.deliver p.wiring s now limit bs).run (st, clock) = .error o →
      instant < o.time

variable {s : Settings} {disk : Files.Disk}

theorem startState_blocks (name : String) :
    (startState s disk).serve.live.blocks name = false := by
  have hnone (e : String) : e ∉ Rules.RuleSet.empty := List.not_mem_nil
  have hempty : Rules.RuleSet.empty.lists name = false := by
    simp [Rules.RuleSet.lists, Rules.RuleSet.containsExact, Rules.RuleSet.containsParent,
      Rules.RuleSet.matchesSuffix, hnone]
  show (startBlocklist s).any _ = false
  unfold startBlocklist
  split
  · exact hempty
  · rfl

theorem usable_iff {path : String} : (planFor s path).wiring.resolver.Usable ↔
    ∃ text ∈ s.forwarding.servers, Names text := Iff.rfl

/-- At the start nothing is blocked or kept, so the first question goes to the forwarders. -/
theorem first_question_late {path : String} {surroundings : Surroundings} {now : UInt64}
    {q : Dns.Question} {clock : Clock} (husable : ∃ text ∈ s.forwarding.servers, Names text)
    (hlate : Clock.limit ≤ clock.read.time + s.forwarding.timeout * 1000) :
    (Clocked.resolveQuestion (planFor s path).wiring surroundings now q).run
      ((startState s disk).serve, clock) =
        .error ⟨clock.read.time, s.forwarding.timeout * 1000⟩ :=
  Clocked.resolveQuestion_late (startState_blocks _) rfl husable hlate

theorem endures_through_iff (s : Settings) (path : String) (instant : Nat) :
    (planFor s path).EnduresThrough instant ↔
      (∀ text ∈ s.forwarding.servers, ¬ Names text) ∨
        instant + s.forwarding.timeout * 1000 < Clock.limit := by
  constructor
  · intro h
    by_cases husable : ∃ text ∈ s.forwarding.servers, Names text
    · refine .inr (Nat.lt_of_not_le fun hlate => ?_)
      have hfirst : (Clocked.resolveQuestion (planFor s path).wiring ⟨.unreachable, .missing ""⟩ 0
          ⟨.root, 1, 1⟩).run ((startState s {}).serve, { time := instant }) =
            .error ⟨instant, s.forwarding.timeout * 1000⟩ := first_question_late husable hlate
      exact absurd ((h _ _ _ _ _).1 _ hfirst) (Nat.lt_irrefl _)
    · exact .inl fun text htext hnames => husable ⟨text, htext, hnames⟩
  · intro h surroundings now st clock o
    -- whatever cannot be computed is a deadline, and those are a timeout after a reading
    have hbound : o.Past clock.time (s.forwarding.timeout * 1000) ∧
        (planFor s path).wiring.resolver.Usable → instant < o.time := by
      rintro ⟨hpast, husable⟩
      obtain ⟨text, htext, hnames⟩ := usable_iff.mp husable
      rcases h with hnone | hearly
      · exact absurd hnames (hnone text htext)
      · have hbeyond := hpast.beyond
        have hbrief := hpast.brief
        omega
    refine ⟨fun q hrun => hbound ?_, fun limit bs hrun => hbound ?_⟩
    · have hends := Clocked.bounded_resolveQuestion (planFor s path).wiring surroundings now q st
        clock
      rw [hrun] at hends
      exact hends
    · have hends := Clocked.bounded_deliver (planFor s path).wiring surroundings now limit bs st
        clock
      rw [hrun] at hends
      exact hends

/-- A message is answered as without a clock, or the program ends at the deadline of an attempt on a
forwarder. -/
theorem answered_or_late (s : Settings) (path : String) (surroundings : Surroundings)
    (now : UInt64) (limit : Option Nat) (bs : Bytes) (st : Serve.State) (time : Nat) :
    let plain := (Serve.deliver (planFor s path).wiring surroundings now limit bs).run st
    let run := (Clocked.deliver (planFor s path).wiring surroundings now limit bs).run
      (st, .even time)
    (∃ time', run = .ok (plain.1, plain.2, .even time')) ∨
      ∃ o, run = .error o ∧ o.Past time (s.forwarding.timeout * 1000) ∧
        ∃ text ∈ s.forwarding.servers, Names text := by
  intro plain run
  have hends := Clocked.bounded_deliver (planFor s path).wiring surroundings now limit bs st
    (.even time)
  rcases Clocked.mirrors_deliver (planFor s path).wiring surroundings now limit bs st time with
    ⟨o, hrun⟩ | hrun
  · rw [hrun] at hends
    exact .inr ⟨o, hrun, hends.1, usable_iff.mp hends.2⟩
  · exact .inl hrun

/-- Which times settings keep within their numbers.  The seconds between two refreshes are positive
and fit into 64 bits, and before the clock on the wall comes to 63 bits, so does the second until
which an answer is kept.  With the deadlines it is otherwise: up to a reading of the clock every
instant can be computed if and only if no text names a forwarder or the timeout after that reading
ends within the limit; and if it does not, the first question ends the program.  Nothing else does:
a message that does not end it at such a deadline is answered. -/
theorem times_bounded_iff (s : Settings) (path : String) :
    (0 < s.blocking.interval ∧ s.blocking.interval < Width.capacity 64) ∧
    (∀ (store : Cache.Store) (now : UInt64) (name : String) (type : Dns.RType)
      (records : List Dns.Record) (ttl : UInt32), now.toNat < Width.capacity 63 → records ≠ [] →
        ∃ bs expiry,
          (store.set now name type records ttl).entries.find? (Cache.key name type) = some bs ∧
            Cache.decodeExpiry? bs = some expiry ∧ expiry.toNat = now.toNat + ttl.toNat) ∧
    (∀ instant, (planFor s path).EnduresThrough instant ↔
      (∀ text ∈ s.forwarding.servers, ¬ Names text) ∨
        instant + s.forwarding.timeout * 1000 < Clock.limit) ∧
    (∀ (disk : Files.Disk) (surroundings : Surroundings) (now : UInt64) (q : Dns.Question)
      (clock : Clock), (∃ text ∈ s.forwarding.servers, Names text) →
        Clock.limit ≤ clock.read.time + s.forwarding.timeout * 1000 →
          (Clocked.resolveQuestion (planFor s path).wiring surroundings now q).run
            ((startState s disk).serve, clock) =
              .error ⟨clock.read.time, s.forwarding.timeout * 1000⟩) ∧
    ∀ (surroundings : Surroundings) (now : UInt64) (limit : Option Nat) (bs : Bytes)
      (st : Serve.State) (time : Nat),
        let plain := (Serve.deliver (planFor s path).wiring surroundings now limit bs).run st
        let run := (Clocked.deliver (planFor s path).wiring surroundings now limit bs).run
          (st, .even time)
        (∃ time', run = .ok (plain.1, plain.2, .even time')) ∨
          ∃ o, run = .error o ∧ o.Past time (s.forwarding.timeout * 1000) ∧
            ∃ text ∈ s.forwarding.servers, Names text :=
  ⟨⟨s.blocking.interval_pos, s.blocking.interval_fits⟩,
    fun store _ name type _ ttl hnow hrecords =>
      Cache.expiry_of_set hnow store name type hrecords ttl,
    endures_through_iff s path,
    fun _ _ _ _ _ husable hlate => first_question_late husable hlate, answered_or_late s path⟩

/-- A file with a timeout of one second more than 63 bits can write. -/
def patientText : String :=
  "[dns]\nupstream_servers = [\"tcp://127.0.0.1:1\"]\ntimeout_secs = 9223372036854775808\n"

/-- The settings of that file. -/
def patient : Settings :=
  { forwarding := { servers := ["tcp://127.0.0.1:1"], timeout := 9223372036854775808 } }

/-- The file is accepted, and any first question ends the program, whatever the clock shows. -/
theorem patient_overflows :
    Settings.loadChecked (Settings.diskWith patientText) "settings.toml" {} = .ok patient ∧
      ∀ (surroundings : Surroundings) (now : UInt64) (q : Dns.Question) (clock : Clock),
        (Clocked.resolveQuestion (planFor patient "settings.toml").wiring surroundings now q).run
          ((startState patient (Settings.diskWith patientText)).serve, clock) =
            .error ⟨clock.read.time, 9223372036854775808000⟩ := by
  have hread : (Settings.diskWith patientText).readText "settings.toml" = .ok patientText :=
    Files.Disk.readText_encode rfl
  have hload : Settings.load (Settings.diskWith patientText) "settings.toml" {} = .ok patient :=
    (Settings.load_eq_ok_iff hread).mpr (by decide +kernel)
  have hcheck : patient.check = .ok () := by decide +kernel
  have hnames : Names "tcp://127.0.0.1:1" := ⟨_, by rfl⟩
  refine ⟨?_, fun surroundings now q clock => ?_⟩
  · unfold Settings.loadChecked
    rw [hload]
    show (pure patient >>= _) = _
    rw [pure_bind, hcheck]
  · refine first_question_late ⟨_, List.mem_cons_self, hnames⟩ ?_
    have hlimit : Clock.limit = 9223372036854775808 * 1000 := by decide +kernel
    rw [hlimit]
    exact Nat.le_add_left _ _

end Program

end DnsGate
