import DnsGate.Dns.Reader

/-!
Reading questions again from other bytes.  What a reader makes of names and questions depends on the
bytes that spell them, and these stand where the questions stand or where pointers lead.  Main
statement: questions are read alike from bytes that agree up to their end on every place that spells
one of them (`questions_agree`).
-/

namespace DnsGate.Dns

/-! ## Places -/

/-- The cursor at a place of some bytes. -/
def cursorAt (whole : Bytes) (pos : Nat) : Cursor := ⟨whole, pos, whole.drop pos⟩

/-- What stands at certain places before an end of some bytes stands there in other bytes as
well. -/
def AgreeOn (K : Nat → Prop) (stop : Nat) (bs bs' : Bytes) : Prop :=
  ∀ i < stop, K i → ∀ b, bs[i]? = some b → bs'[i]? = some b

/-- Stretches of places, each with its end, all of which are among certain places. -/
def Within (K : Nat → Prop) (stretches : List (Nat × Nat)) : Prop :=
  ∀ p ∈ stretches, ∀ i < p.2, p.1 ≤ i → K i

instance (K : Nat → Prop) [DecidablePred K] (stretches : List (Nat × Nat)) :
    Decidable (Within K stretches) :=
  inferInstanceAs (Decidable (∀ p ∈ stretches, ∀ i < p.2, p.1 ≤ i → K i))

section Places

variable {K : Nat → Prop} {stop start : Nat} {bs bs' u rest : Bytes}

theorem AgreeOn.mono {stop' : Nat} (h : AgreeOn K stop bs bs') (hle : stop' ≤ stop) :
    AgreeOn K stop' bs bs' :=
  fun i hi => h i (Nat.lt_of_lt_of_le hi hle)

/-- What stands at agreeing places of the one stands there in the other. -/
theorem AgreeOn.drop_eq (h : AgreeOn K stop bs bs') (hu : bs.drop start = u ++ rest)
    (hstop : start + u.length ≤ stop) (hK : ∀ i < start + u.length, start ≤ i → K i) :
    bs'.drop start = u ++ bs'.drop (start + u.length) := by
  have htake : (bs'.drop start).take u.length = u := by
    refine List.ext_getElem? fun i => ?_
    by_cases hi : i < u.length
    · have hbyte : bs[start + i]? = some u[i] := by
        rw [← List.getElem?_drop, hu, List.getElem?_append_left hi, List.getElem?_eq_getElem hi]
      rw [List.getElem?_take_of_lt hi, List.getElem?_drop, List.getElem?_eq_getElem hi]
      exact h (start + i) (by omega) (hK (start + i) (by omega) (by omega)) u[i] hbyte
    · rw [List.getElem?_eq_none (by rw [List.length_take]; omega), List.getElem?_eq_none (by omega)]
  rw [← List.drop_drop]
  conv => lhs; rw [← List.take_append_drop u.length (bs'.drop start), htake]

end Places

/-! ## Labels -/

section Labels

variable {K : Nat → Prop} {limit : Option Nat} {pos stop : Nat} {b c : UInt8} {bs bs' rest : Bytes}
  {label : Label} {run : LabelRun}

theorem readLabels_root (hlimit : ¬ limit.any (· ≤ pos) = true) :
    readLabels limit pos (0 :: rest) = some ⟨[], .root, pos + 1, rest⟩ := by
  rw [readLabels.eq_def]
  dsimp only
  rw [if_neg hlimit, if_pos rfl]

theorem readLabels_pointer (hlimit : ¬ limit.any (· ≤ pos) = true) (hzero : ¬ b = 0)
    (hb : 0xC0 ≤ b) :
    readLabels limit pos (b :: c :: rest) =
      some ⟨[], .pointer ((b.toNat - 0xC0) * 256 + c.toNat), pos + 2, rest⟩ := by
  rw [readLabels.eq_def]
  dsimp only
  rw [if_neg hlimit, if_neg hzero, if_pos hb]

theorem readLabels_label (hlimit : ¬ limit.any (· ≤ pos) = true) (hzero : ¬ b = 0)
    (hb : ¬ 0xC0 ≤ b) (hb' : ¬ 0x40 ≤ b) (hlen : label.length = b.toNat) :
    readLabels limit pos (b :: (label ++ rest)) =
      (readLabels limit (pos + 1 + b.toNat) rest).bind fun run =>
        some { run with labels := label :: run.labels } := by
  rw [readLabels.eq_def]
  dsimp only
  rw [if_neg hlimit, if_neg hzero, if_neg hb, if_neg hb', List.take_left' hlen,
    List.drop_left' hlen, if_neg (by omega)]
  rfl

/-- Reading labels takes some bytes off the front, and does so whatever stands after them.  Under a
limit, the last length or pointer among them starts before it. -/
theorem readLabels_append (h : readLabels limit pos bs = some run) :
    ∃ u, u ≠ [] ∧ bs = u ++ run.rest ∧ run.pos = pos + u.length ∧
      (∀ l, limit = some l → pos < l ∧ run.pos ≤ l + 1) ∧
      ∀ rest, readLabels limit pos (u ++ rest) = some { run with rest } := by
  have hbelow {pos l : Nat} (hlimit : ¬ limit.any (· ≤ pos) = true) (hl : limit = some l) :
      pos < l := by
    subst hl
    simpa using hlimit
  induction pos, bs using readLabels.induct limit generalizing run with
  | case1 pos => rw [readLabels] at h; cases h
  | case2 pos b bs hlimit => rw [readLabels.eq_def] at h; simp [hlimit] at h
  | case4 pos b hlimit hzero hb => rw [readLabels.eq_def] at h; simp [hlimit, hzero, hb] at h
  | case6 pos b bs hlimit hzero hb hb' =>
    rw [readLabels.eq_def] at h
    simp [hlimit, hzero, hb, hb'] at h
  | case7 pos b bs hlimit hzero hb hb' label =>
    rename_i hshort
    rw [readLabels.eq_def] at h
    dsimp only at h
    rw [if_neg hlimit, if_neg hzero, if_neg hb, if_neg hb', if_pos hshort] at h
    cases h
  | case3 pos bs hlimit =>
    rw [readLabels_root hlimit] at h
    cases h
    refine ⟨[0], by simp, rfl, rfl, fun l hl => ?_, fun rest => readLabels_root hlimit⟩
    exact ⟨hbelow hlimit hl, Nat.succ_le_succ (Nat.le_of_lt (hbelow hlimit hl))⟩
  | case5 pos b hlimit hzero hb c bs =>
    rw [readLabels_pointer hlimit hzero hb] at h
    cases h
    refine ⟨[b, c], by simp, rfl, rfl, fun l hl => ?_, fun rest => readLabels_pointer hlimit hzero hb⟩
    exact ⟨hbelow hlimit hl, Nat.succ_le_succ (hbelow hlimit hl)⟩
  | case8 pos b bs hlimit hzero hb hb' label hlong =>
    rename_i ih
    have hlen : (bs.take b.toNat).length = b.toNat :=
      Nat.le_antisymm (List.length_take_le b.toNat bs) (Nat.le_of_not_lt hlong)
    rw [← List.take_append_drop b.toNat bs, readLabels_label hlimit hzero hb hb' hlen] at h
    obtain ⟨inner, hinner, hrun⟩ := Option.bind_eq_some_iff.mp h
    cases hrun
    obtain ⟨u, -, hu, hpos, hend, hrest⟩ := ih hinner
    refine ⟨b :: (bs.take b.toNat ++ u), by simp, ?_, ?_, fun l hl => ?_, fun rest => ?_⟩
    · rw [List.cons_append, List.append_assoc, ← hu, List.take_append_drop]
    · rw [List.length_cons, List.length_append, hlen]
      dsimp only
      omega
    · exact ⟨hbelow hlimit hl, (hend l hl).2⟩
    · rw [List.cons_append, List.append_assoc, readLabels_label hlimit hzero hb hb' hlen, hrest]
      rfl

/-- Labels are read alike where the bytes that spell them agree. -/
theorem AgreeOn.readLabels (hsame : AgreeOn K stop bs bs')
    (h : readLabels limit pos (bs.drop pos) = some run) (hstop : run.pos ≤ stop)
    (hK : ∀ i < run.pos, pos ≤ i → K i) :
    readLabels limit pos (bs'.drop pos) = some { run with rest := bs'.drop run.pos } := by
  obtain ⟨u, -, hu, hpos, -, hrest⟩ := readLabels_append h
  rw [hpos] at hstop hK
  rw [hsame.drop_eq hu hstop hK, hrest, hpos]

end Labels

/-! ## Names -/

/-- The labels of a name, given the run that it starts with: that run, and what a pointer leads
to. -/
def completed (whole : Bytes) (start : Nat) (run : LabelRun) : Option (List Label) :=
  match run.ending with
  | .root => some run.labels
  | .pointer target =>
    if target < start then (labelsAt whole start target).map (run.labels ++ ·) else none

/-- The places of the bytes that spell the name at a place: the stretch that starts there, and those
that its pointers lead to. -/
def stretchesAt (bs : Bytes) (limit : Option Nat) (start : Nat) : List (Nat × Nat) :=
  match readLabels limit start (bs.drop start) with
  | none => []
  | some run => (start, run.pos) :: match run.ending with
    | .root => []
    | .pointer target => if target < start then stretchesAt bs (some start) target else []
termination_by start

section Names

variable {K : Nat → Prop} {limit : Option Nat} {pos stop : Nat} {bs bs' : Bytes} {run : LabelRun}

theorem labelsAt_eq (whole : Bytes) (limit start : Nat) :
    labelsAt whole limit start =
      (readLabels (some limit) start (whole.drop start)).bind (completed whole start) := by
  rw [labelsAt]
  refine congrArg (Option.bind _) (funext fun run => ?_)
  unfold completed
  cases run.ending with
  | root => rfl
  | pointer target =>
    dsimp only
    cases labelsAt whole start target with
    | none => rfl
    | some labels => rfl

theorem Reader.name_eq (c : Cursor) :
    Reader.name c = (readLabels none c.pos c.rest).bind fun run =>
      (completed c.whole c.pos run).bind fun labels =>
        if (Name.mk labels).wireLength ≤ 255 then some (⟨labels⟩, ⟨c.whole, run.pos, run.rest⟩)
        else none := by
  refine congrArg (Option.bind _) (funext fun run => ?_)
  unfold completed
  cases run.ending with
  | root => rfl
  | pointer target =>
    dsimp only
    split
    · cases labelsAt c.whole c.pos target with
      | none => rfl
      | some labels => rfl
    · rfl

/-- A name is completed alike from bytes that agree on what spells it, if what pointers lead to is
read alike. -/
theorem completed_agree (hrun : readLabels limit pos (bs.drop pos) = some run) {labels : List Label}
    (h : completed bs pos run = some labels) (hK : Within K (stretchesAt bs limit pos))
    (htarget : ∀ target < pos, ∀ labels, labelsAt bs pos target = some labels →
      Within K (stretchesAt bs (some pos) target) → labelsAt bs' pos target = some labels)
    (rest : Bytes) : completed bs' pos { run with rest } = some labels := by
  rw [stretchesAt, hrun] at hK
  unfold completed at h ⊢
  dsimp only at h hK ⊢
  cases hend : run.ending with
  | root => rwa [hend] at h
  | pointer target =>
    rw [hend] at h hK
    dsimp only at h hK ⊢
    split at h
    · rename_i hlt
      obtain ⟨rest, hrest, hlabels⟩ := Option.map_eq_some_iff.mp h
      rw [if_pos hlt] at hK ⊢
      rw [htarget target hlt rest hrest fun p hp => hK p (List.mem_cons_of_mem _ hp),
        Option.map_some, hlabels]
    · cases h

theorem within_first (hrun : readLabels limit pos (bs.drop pos) = some run)
    (hK : Within K (stretchesAt bs limit pos)) : ∀ i < run.pos, pos ≤ i → K i := by
  rw [stretchesAt, hrun] at hK
  exact hK (pos, run.pos) List.mem_cons_self

/-- The end of a name that a pointer leads to is read alike where the bytes that spell it agree. -/
theorem labelsAt_agree (hsame : AgreeOn K stop bs bs') {limit : Nat} (hstop : limit < stop)
    {labels : List Label} (h : labelsAt bs limit pos = some labels)
    (hK : Within K (stretchesAt bs (some limit) pos)) : labelsAt bs' limit pos = some labels := by
  induction pos using Nat.strongRecOn generalizing limit labels with
  | ind pos ih =>
    rw [labelsAt_eq] at h ⊢
    obtain ⟨run, hrun, hcompleted⟩ := Option.bind_eq_some_iff.mp h
    obtain ⟨-, -, -, -, hend, -⟩ := readLabels_append hrun
    obtain ⟨hlow, hhigh⟩ := hend limit rfl
    rw [hsame.readLabels hrun (Nat.le_trans hhigh hstop) (within_first hrun hK), Option.bind_some]
    exact completed_agree hrun hcompleted hK
      (fun target hlt _ => ih target hlt (Nat.lt_trans hlow hstop)) _

end Names

/-! ## Readers -/

/-- The stretches that spell the names of so many questions, the first of which starts at a
place. -/
def questionStretches (bs : Bytes) : Nat → Nat → List (Nat × Nat)
  | 0, _ => []
  | n + 1, pos => stretchesAt bs none pos ++
    match Reader.question (cursorAt bs pos) with
    | none => []
    | some (_, c) => questionStretches bs n c.pos

namespace Reader

section Readers

variable {K : Nat → Prop} {pos n : Nat} {bs bs' u rest : Bytes} {c : Cursor}

/-! ### One thing -/

theorem name_agree {name : Name} (h : Reader.name (cursorAt bs pos) = some (name, c)) :
    ∃ stop, pos < stop ∧ c = cursorAt bs stop ∧
      ∀ bs', AgreeOn K stop bs bs' → Within K (stretchesAt bs none pos) →
        Reader.name (cursorAt bs' pos) = some (name, cursorAt bs' stop) := by
  rw [name_eq, cursorAt] at h
  dsimp only at h
  obtain ⟨run, hrun, h⟩ := Option.bind_eq_some_iff.mp h
  obtain ⟨labels, hlabels, h⟩ := Option.bind_eq_some_iff.mp h
  obtain ⟨u, hne, hu, hpos, -, -⟩ := readLabels_append hrun
  split at h
  · rename_i hlen
    cases h
    have hlt : pos < run.pos := by
      have := List.length_pos_iff.mpr hne
      omega
    refine ⟨run.pos, hlt, ?_, fun bs' hsame hK => ?_⟩
    · rw [cursorAt, hpos, ← List.drop_drop, hu, List.drop_left]
    · have hread := hsame.readLabels hrun (Nat.le_refl _) (within_first hrun hK)
      have hcompleted := completed_agree hrun hlabels hK
        (fun _ _ _ => labelsAt_agree hsame hlt) (bs'.drop run.pos)
      rw [name_eq, cursorAt]
      dsimp only
      rw [hread, Option.bind_some, hcompleted, Option.bind_some, if_pos hlen]
      rfl
  · cases h

theorem bytes_append {whole : Bytes} (hlen : u.length = n) :
    bytes n ⟨whole, pos, u ++ rest⟩ = some (u, ⟨whole, pos + n, rest⟩) := by
  unfold bytes
  dsimp only
  rw [List.take_left' hlen, List.drop_left' hlen, if_neg (by omega)]

theorem bytes_cursorAt (h : bytes n (cursorAt bs pos) = some (u, c)) :
    u.length = n ∧ bs.drop pos = u ++ bs.drop (pos + n) ∧ c = cursorAt bs (pos + n) := by
  unfold bytes at h
  dsimp only [cursorAt] at h
  split at h
  · cases h
  · rename_i hlen
    cases h
    refine ⟨Nat.le_antisymm (List.length_take_le _ _) (Nat.le_of_not_lt hlen), ?_, ?_⟩
    · rw [← List.drop_drop, List.take_append_drop]
    · rw [cursorAt, List.drop_drop]

theorem bytes_agree (h : bytes n (cursorAt bs pos) = some (u, c)) :
    c = cursorAt bs (pos + n) ∧ ∀ bs', AgreeOn K (pos + n) bs bs' → (∀ i, pos ≤ i → K i) →
      bytes n (cursorAt bs' pos) = some (u, cursorAt bs' (pos + n)) := by
  obtain ⟨hlen, hu, hc⟩ := bytes_cursorAt h
  refine ⟨hc, fun bs' hsame hK => ?_⟩
  rw [cursorAt, hsame.drop_eq hu (by omega) fun i _ => hK i, bytes_append hlen, hlen]
  rfl

theorem number_eq (width : Nat) (c : Cursor) :
    number width c = (bytes width c).bind fun p => some (BigEndian.value p.1, p.2) := rfl

theorem u16_eq (c : Cursor) :
    u16 c = (number 2 c).bind fun p => some (UInt16.ofNat p.1, p.2) := rfl

theorem u16_agree {x : UInt16} (h : u16 (cursorAt bs pos) = some (x, c)) :
    c = cursorAt bs (pos + 2) ∧ ∀ bs', AgreeOn K (pos + 2) bs bs' → (∀ i, pos ≤ i → K i) →
      u16 (cursorAt bs' pos) = some (x, cursorAt bs' (pos + 2)) := by
  rw [u16_eq, number_eq, Option.bind_assoc] at h
  obtain ⟨⟨u, c'⟩, hbytes, h⟩ := Option.bind_eq_some_iff.mp h
  cases h
  obtain ⟨hc, hagain⟩ := bytes_agree hbytes
  refine ⟨hc, fun bs' hsame hK => ?_⟩
  rw [u16_eq, number_eq, hagain bs' hsame hK, Option.bind_some, Option.bind_some]

/-! ### Questions -/

theorem question_eq (c : Cursor) :
    question c = (name c).bind fun p => (u16 p.2).bind fun p' => (u16 p'.2).bind fun p'' =>
      some (⟨p.1, p'.1, p''.1⟩, p''.2) := rfl

theorem question_agree {q : Question} (h : question (cursorAt bs pos) = some (q, c)) :
    ∃ stop, pos < stop ∧ c = cursorAt bs stop ∧
      ∀ bs', AgreeOn K stop bs bs' → (∀ i, pos ≤ i → K i) → Within K (stretchesAt bs none pos) →
        question (cursorAt bs' pos) = some (q, cursorAt bs' stop) := by
  rw [question_eq] at h
  obtain ⟨⟨name, c₁⟩, hname, h⟩ := Option.bind_eq_some_iff.mp h
  obtain ⟨⟨type, c₂⟩, htype, h⟩ := Option.bind_eq_some_iff.mp h
  obtain ⟨⟨cls, c₃⟩, hcls, h⟩ := Option.bind_eq_some_iff.mp h
  cases h
  obtain ⟨stop, hlt, rfl, hname'⟩ := name_agree (K := K) hname
  obtain ⟨rfl, htype'⟩ := u16_agree (K := K) htype
  obtain ⟨rfl, hcls'⟩ := u16_agree (K := K) hcls
  refine ⟨stop + 2 + 2, by omega, rfl, fun bs' hsame hK hstretches => ?_⟩
  rw [question_eq, hname' bs' (hsame.mono (by omega)) hstretches, Option.bind_some,
    htype' bs' (hsame.mono (by omega)) (fun i hi => hK i (by omega)), Option.bind_some,
    hcls' bs' hsame (fun i hi => hK i (by omega)), Option.bind_some]

theorem times_zero {α : Type} (r : Reader α) (c : Cursor) : times r 0 c = some ([], c) := rfl

theorem times_succ {α : Type} (r : Reader α) (n : Nat) (c : Cursor) :
    times r (n + 1) c = (r c).bind fun p => (times r n p.2).bind fun p' =>
      some (p.1 :: p'.1, p'.2) := rfl

/-- Questions are read alike from bytes that agree up to the end of the questions, on all places
from the first question on and on those before it that pointers lead to. -/
theorem questions_agree {qs : List Question} (h : times question n (cursorAt bs pos) = some (qs, c)) :
    qs.length = n ∧ ∃ stop, pos ≤ stop ∧ c = cursorAt bs stop ∧
      ∀ bs', AgreeOn K stop bs bs' → (∀ i, pos ≤ i → K i) →
        Within K (questionStretches bs n pos) →
        times question n (cursorAt bs' pos) = some (qs, cursorAt bs' stop) := by
  induction n generalizing pos qs with
  | zero =>
    rw [times_zero] at h
    cases h
    exact ⟨rfl, pos, Nat.le_refl _, rfl, fun bs' _ _ _ => times_zero _ _⟩
  | succ n ih =>
    rw [times_succ] at h
    obtain ⟨⟨q, c₁⟩, hq, h⟩ := Option.bind_eq_some_iff.mp h
    obtain ⟨⟨rest, c₂⟩, hrest, h⟩ := Option.bind_eq_some_iff.mp h
    cases h
    obtain ⟨between, hlt, rfl, hagain⟩ := question_agree (K := K) hq
    obtain ⟨hlen, stop, hle, hc, hothers⟩ := ih hrest
    refine ⟨congrArg (· + 1) hlen, stop, by omega, hc, fun bs' hsame hK hstretches => ?_⟩
    rw [questionStretches, hq] at hstretches
    rw [times_succ,
      hagain bs' (hsame.mono hle) hK (fun p hp => hstretches p (List.mem_append_left _ hp)),
      Option.bind_some,
      hothers bs' hsame (fun i hi => hK i (by omega))
        (fun p hp => hstretches p (List.mem_append_right _ hp)),
      Option.bind_some]

end Readers

end Reader

end DnsGate.Dns
