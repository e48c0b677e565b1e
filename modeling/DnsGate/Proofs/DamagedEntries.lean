import DnsGate.Proofs.CacheEntry

/-!
Damaged cache entries.  The scan of an entry goes from chunk to chunk by their places; here it goes
over bytes that can only be read where there are some, and for a number of turns only (`scan`).
What it finds, it finds from the front of the bytes alone, which ends where the last chunk found
ends (`scan_ok`).  Main statement: whatever the bytes are and whatever the parser makes of chunks,
the scan reads inside the bytes and ends, and what it has found up to the end of a chunk does not
change with the bytes after that (`damage_spares_the_front`).
-/

namespace DnsGate

/-! ## Fronts -/

namespace Chunk

variable {R : Type} {parse : Bytes → Option R} {bs body rest front : Bytes} {rs : List R}

theorem parseAll_cut (h : take? bs = none) : parseAll parse bs = [] := by
  rw [parseAll]
  split
  · rfl
  · rename_i hsome
    rw [h] at hsome
    cases hsome

theorem parseAll_refused (h : take? bs = some (body, rest)) (hbody : parse body = none) :
    parseAll parse bs = [] := by
  obtain ⟨hlen, rfl⟩ := eq_wrap_append_of_take? h
  rw [parseAll]
  split
  · rfl
  · rename_i hsome
    rw [h] at hsome
    cases hsome
    rw [hbody]

/-- Some bytes are chunks, one after the other, that a parser reads as some records. -/
inductive Reads (parse : Bytes → Option R) : Bytes → List R → Prop where
  | none : Reads parse [] []
  | next {body front : Bytes} {r : R} {rs : List R} (fits : body.length ≤ maxLength)
    (first : parse body = some r) (others : Reads parse front rs) :
    Reads parse (wrap body ++ front) (r :: rs)

/-- They are read so whatever follows them. -/
theorem Reads.parseAll_append (h : Reads parse front rs) (rest : Bytes) :
    parseAll parse (front ++ rest) = rs ++ parseAll parse rest := by
  induction h with
  | none => rfl
  | next fits first others ih =>
    rw [List.append_assoc, parseAll_wrap_append fits first, ih, List.cons_append]

end Chunk

namespace Cache

variable {R : Type} (parse : Bytes → Option R) (bs : Bytes)

/-! ## The scan by places -/

/-- How a scan can go wrong. -/
inductive ScanFault where
  /-- A place is read at which there is no byte. -/
  | outside (place : Nat)
  /-- The turns are used up. -/
  | unfinished
deriving DecidableEq, Repr

/-- The byte at a place. -/
def byteAt (place : Nat) : Except ScanFault UInt8 :=
  match bs[place]? with
  | some b => .ok b
  | none => .error (.outside place)

/-- So many bytes from a place on. -/
def bytesAt (place : Nat) : Nat → Except ScanFault Bytes
  | 0 => .ok []
  | n + 1 => do return (← byteAt bs place) :: (← bytesAt (place + 1) n)

/-- A record that is found in an entry, with the place at which its chunk has ended. -/
structure Found (R : Type) where
  record : R
  stop : Nat
deriving DecidableEq, Repr

/-- One turn of the scan: the record in the chunk at a place, if there is a whole one that the
parser does not refuse. -/
def scanTurn (place : Nat) : Except ScanFault (Option (Found R)) := do
  if bs.length < place + 2 then return none
  let len := (← byteAt bs place).toNat * 256 + (← byteAt bs (place + 1)).toNat
  let stop := place + 2 + len
  if bs.length < stop then return none
  return (parse (← bytesAt bs (place + 2) len)).map fun record => ⟨record, stop⟩

/-- The scan from a place on, for so many turns. -/
def scan : Nat → Nat → Except ScanFault (List (Found R))
  | 0, _ => .error .unfinished
  | turns + 1, place => do
    match ← scanTurn parse bs place with
    | none => return []
    | some found => return found :: (← scan turns found.stop)

/-! ## What it finds -/

variable {parse bs} {place : Nat}

theorem byteAt_ok (h : place < bs.length) : byteAt bs place = .ok bs[place] := by
  rw [byteAt, List.getElem?_eq_getElem h]

theorem bytesAt_ok {n : Nat} (h : place + n ≤ bs.length) :
    bytesAt bs place n = .ok ((bs.drop place).take n) := by
  induction n generalizing place with
  | zero => rfl
  | succ n ih =>
    have hplace : place < bs.length := by omega
    rw [bytesAt, byteAt_ok hplace, ih (by omega), List.drop_eq_getElem_cons hplace]
    rfl

/-- A turn reads nothing outside of the bytes and finds what is in the first chunk there. -/
theorem scanTurn_eq : scanTurn parse bs place =
    .ok ((Chunk.take? (bs.drop place)).bind fun chunk =>
      (parse chunk.1).map fun record => ⟨record, place + 2 + chunk.1.length⟩) := by
  unfold scanTurn
  by_cases hshort : bs.length < place + 2
  · have hcut : Chunk.take? (bs.drop place) = none := by
      have hlen : (bs.drop place).length < 2 := by
        rw [List.length_drop]
        omega
      exact Chunk.take?_short hlen
    rw [if_pos hshort, hcut]
    rfl
  · have hfirst : place < bs.length := by omega
    have hsecond : place + 1 < bs.length := by omega
    have hdrop : bs.drop place = bs[place] :: bs[place + 1] :: bs.drop (place + 2) := by
      rw [List.drop_eq_getElem_cons hfirst, List.drop_eq_getElem_cons hsecond]
    rw [if_neg hshort, byteAt_ok hfirst, byteAt_ok hsecond, hdrop, Chunk.take?_cons_cons]
    change (if bs.length < place + 2 + (bs[place].toNat * 256 + bs[place + 1].toNat) then
      Except.ok none else _) = _
    generalize bs[place].toNat * 256 + bs[place + 1].toNat = len
    have hrest : (bs.drop (place + 2)).length = bs.length - (place + 2) := List.length_drop
    by_cases hcut : bs.length < place + 2 + len
    · rw [if_pos hcut, if_pos (by omega)]
      rfl
    · have hbody : ((bs.drop (place + 2)).take len).length = len :=
        List.length_take_of_le (by omega)
      rw [if_neg hcut, if_neg (by omega), bytesAt_ok (by omega), Option.bind_some, hbody]
      rfl

theorem scan_succ (turns : Nat) : scan parse bs (turns + 1) place =
    scanTurn parse bs place >>= fun
      | none => .ok []
      | some f => (scan parse bs turns f.stop).map fun found => f :: found := rfl

/-- All that a turn can do: the scan ends where no record can be read, or it has read one from a
whole chunk and goes on behind that. -/
theorem scan_cases (parse : Bytes → Option R) (bs : Bytes) (place : Nat) :
    ((∀ turns, scan parse bs (turns + 1) place = .ok []) ∧
      Chunk.parseAll parse (bs.drop place) = []) ∨
    ∃ f body, (∀ turns, scan parse bs (turns + 1) place =
        (scan parse bs turns f.stop).map fun found => f :: found) ∧
      body.length ≤ Chunk.maxLength ∧ parse body = some f.record ∧
      bs.drop place = Chunk.wrap body ++ bs.drop f.stop ∧
      f.stop = place + (Chunk.wrap body).length := by
  rcases htake : Chunk.take? (bs.drop place) with _ | ⟨body, rest⟩
  · left
    refine ⟨fun turns => ?_, Chunk.parseAll_cut htake⟩
    rw [scan_succ, scanTurn_eq, htake]
    rfl
  · obtain ⟨hfits, hdrop⟩ := Chunk.eq_wrap_append_of_take? htake
    cases hbody : parse body with
    | none =>
      left
      refine ⟨fun turns => ?_, Chunk.parseAll_refused htake hbody⟩
      rw [scan_succ, scanTurn_eq, htake, Option.bind_some, hbody]
      rfl
    | some r =>
      right
      have hrest : rest = bs.drop (place + 2 + body.length) := by
        rw [Nat.add_assoc, ← List.drop_drop, hdrop, List.drop_left' (Chunk.length_wrap body)]
      refine ⟨⟨r, place + 2 + body.length⟩, body, fun turns => ?_, hfits, hbody, hrest ▸ hdrop, ?_⟩
      · rw [scan_succ, scanTurn_eq, htake, Option.bind_some, hbody]
        rfl
      · rw [Chunk.length_wrap, Nat.add_assoc]

variable (parse) in
/-- A scan that has turns enough ends without a fault.  It finds the records that the chunks are
read as, and each of them is read from the front of the bytes that ends where its chunk ends. -/
theorem scan_ok (turns : Nat) (h : bs.length < place + 2 * (turns + 1)) :
    ∃ found, scan parse bs (turns + 1) place = .ok found ∧
      found.map Found.record = Chunk.parseAll parse (bs.drop place) ∧
      ∀ k f, found[k]? = some f → f.stop ≤ bs.length ∧ ∃ front,
        f.stop = place + front.length ∧ bs.drop place = front ++ bs.drop f.stop ∧
        Chunk.Reads parse front ((found.take (k + 1)).map Found.record) := by
  induction turns generalizing place with
  | zero =>
    rcases scan_cases parse bs place with ⟨hscan, hnone⟩ | ⟨f, body, -, -, -, hdrop, -⟩
    · exact ⟨[], hscan 0, hnone.symm, fun k f hf => by cases hf⟩
    · have hlen := congrArg List.length hdrop
      rw [List.length_drop, List.length_append, Chunk.length_wrap] at hlen
      omega
  | succ turns ih =>
    rcases scan_cases parse bs place with ⟨hscan, hnone⟩ | ⟨f, body, hscan, hfits, hbody, hdrop, hstop⟩
    · exact ⟨[], hscan (turns + 1), hnone.symm, fun k f hf => by cases hf⟩
    · rw [Chunk.length_wrap] at hstop
      have hrest : bs.length < f.stop + 2 * (turns + 1) := by omega
      obtain ⟨found, hfound, hrecords, hfronts⟩ := ih hrest
      refine ⟨f :: found, by rw [hscan, hfound]; rfl, ?_, fun k f' hf' => ?_⟩
      · rw [List.map_cons, hrecords, hdrop, Chunk.parseAll_wrap_append hfits hbody]
      -- the front of the first record is its chunk, that of a later one this chunk and its front
      · cases k with
        | zero =>
          obtain rfl : f = f' := Option.some.inj hf'
          have hlen := congrArg List.length hdrop
          rw [List.length_drop, List.length_append, List.length_drop, Chunk.length_wrap] at hlen
          refine ⟨by omega, Chunk.wrap body, by rw [Chunk.length_wrap, hstop], hdrop, ?_⟩
          have hone := Chunk.Reads.next hfits hbody .none
          rwa [List.append_nil] at hone
        | succ k =>
          obtain ⟨hinside, front, hstop', hdrop', hreads⟩ := hfronts k f' hf'
          refine ⟨hinside, Chunk.wrap body ++ front, ?_, ?_, .next hfits hbody hreads⟩
          · rw [List.length_append, Chunk.length_wrap]
            omega
          · rw [List.append_assoc, ← hdrop', hdrop]

/-! ## Entries -/

/-- The scan of an entry from its expiry on.  A turn takes the two bytes of a length at least, and
the last one finds the end. -/
def scanEntry (parse : Bytes → Option R) (bs : Bytes) : Except ScanFault (List (Found R)) :=
  scan parse bs (bs.length / 2 + 1) expiryLength

/-- A front of what follows a place stays there as long as the bytes up to its end do. -/
theorem drop_eq_append_of_take_eq {bs' front rest : Bytes} (h : bs.drop place = front ++ rest)
    (hsame : bs'.take (place + front.length) = bs.take (place + front.length)) :
    bs'.drop place = front ++ bs'.drop (place + front.length) := by
  have hfront : (bs'.drop place).take front.length = front := by
    rw [List.take_drop, hsame, ← List.take_drop, h, List.take_left]
  calc bs'.drop place
      = (bs'.drop place).take front.length ++ (bs'.drop place).drop front.length :=
        (List.take_append_drop _ _).symm
    _ = front ++ bs'.drop (place + front.length) := by rw [hfront, List.drop_drop]

variable (parse bs)

/-- What the scan of an entry finds, and what of it depends on which bytes. -/
theorem scanEntry_ok : ∃ found, scanEntry parse bs = .ok found ∧
    decodeWith parse bs = found.map Found.record ∧
    ∀ k f, found[k]? = some f → f.stop ≤ bs.length ∧
      ∀ bs', bs'.take f.stop = bs.take f.stop →
        (decodeWith parse bs').take (k + 1) = (decodeWith parse bs).take (k + 1) := by
  have hturns : bs.length < expiryLength + 2 * (bs.length / 2 + 1) := by
    unfold expiryLength
    omega
  obtain ⟨found, hscan, hrecords, hfronts⟩ := scan_ok parse (bs.length / 2) hturns
  refine ⟨found, hscan, hrecords.symm, fun k f hf => ?_⟩
  obtain ⟨hinside, front, hstop, hdrop, hreads⟩ := hfronts k f hf
  refine ⟨hinside, fun bs' hsame => ?_⟩
  have hlen : ((found.take (k + 1)).map Found.record).length = k + 1 := by
    obtain ⟨hk, -⟩ := List.getElem?_eq_some_iff.mp hf
    rw [List.length_map, List.length_take_of_le hk]
  have hfront (bs' : Bytes) (hsame : bs'.take f.stop = bs.take f.stop) :
      (decodeWith parse bs').take (k + 1) = (found.take (k + 1)).map Found.record := by
    rw [hstop] at hsame
    rw [decodeWith, drop_eq_append_of_take_eq hdrop hsame, hreads.parseAll_append,
      List.take_left' hlen]
  rw [hfront bs' hsame, hfront bs rfl]

/-- The records of a cut-off entry are the first ones of the entry. -/
theorem decodeWith_take_prefix (n : Nat) : decodeWith parse (bs.take n) <+: decodeWith parse bs := by
  obtain ⟨found, -, hrecords, hkept⟩ := scanEntry_ok parse (bs.take n)
  rcases found.eq_nil_or_concat with rfl | ⟨firsts, f, rfl⟩
  · rw [hrecords, List.map_nil]
    exact List.nil_prefix
  · obtain ⟨hinside, hsame⟩ := hkept firsts.length f (by simp)
    have hcut : bs.take f.stop = (bs.take n).take f.stop := by
      rw [List.length_take] at hinside
      rw [List.take_take, Nat.min_eq_left (by omega)]
    have hall : (decodeWith parse (bs.take n)).take (firsts.length + 1) =
        decodeWith parse (bs.take n) :=
      List.take_of_length_le (by simp [hrecords])
    rw [← hall, ← hsame bs hcut]
    exact List.take_prefix _ _

/-- Damage to an entry does not reach back.  Whatever the bytes are, the scan ends without a read
outside of them, and has the records that are read.  They are the same, up to one of them, for all
bytes that are the same up to the end of its chunk; and an entry that is cut off has the first ones
of them. -/
theorem damage_spares_the_front : ∃ found, scanEntry parse bs = .ok found ∧
    decodeWith parse bs = found.map Found.record ∧
    (∀ k f, found[k]? = some f → f.stop ≤ bs.length ∧
      ∀ bs', bs'.take f.stop = bs.take f.stop →
        (decodeWith parse bs').take (k + 1) = (decodeWith parse bs).take (k + 1)) ∧
    ∀ n, decodeWith parse (bs.take n) <+: decodeWith parse bs := by
  obtain ⟨found, hscan, hrecords, hkept⟩ := scanEntry_ok parse bs
  exact ⟨found, hscan, hrecords, hkept, decodeWith_take_prefix parse bs⟩

/-- An entry with a chunk that is whole and one that is not. -/
def cutOff : Bytes := BigEndian.encode expiryLength 42 ++ [0, 1, 7, 0, 3, 9, 9]

/-- The first chunk is found, and read whatever comes after it. -/
theorem cutOff_read : scanEntry some cutOff = .ok [⟨[7], 11⟩] ∧
    ∀ rest, (decodeWith some (cutOff.take 11 ++ rest)).take 1 = [[7]] := by
  have hscan : scanEntry some cutOff = .ok [⟨[7], 11⟩] := by decide +kernel
  refine ⟨hscan, fun rest => ?_⟩
  obtain ⟨found, hfound, hrecords, hkept, -⟩ := damage_spares_the_front some cutOff
  obtain rfl : [⟨[7], 11⟩] = found := Except.ok.inj (hscan.symm.trans hfound)
  obtain ⟨-, hsame⟩ := hkept 0 ⟨[7], 11⟩ rfl
  rw [hsame _ (List.take_left' rfl), hrecords]
  rfl

end Cache

end DnsGate
