import DnsGate.Proofs.ReadingAgain
import DnsGate.Proofs.Sinkhole

/-!
The two ways to a reply.  A message that was read is answered by a message; a request that came in
is answered by bytes in which the questions stand as the request spells them, behind a new header.
Main statement: both answer alike and leave the same state, and the bytes say the same header and
the same questions unless a question has its name from header bytes that the reply has anew
(`entry_points_agree`); one that has is read differently, or not at all (`question_from_header`).
-/

namespace DnsGate.Dns

namespace Reader

/-! ## Headers -/

/-- The header that an identifier and two bytes of flags write. -/
def headerFrom (id : UInt16) (hi lo : Nat) : Header where
  id
  response := hi.testBit 7
  opcode := hi / 8 % 16
  authoritative := hi.testBit 2
  truncated := hi.testBit 1
  recursionDesired := hi.testBit 0
  recursionAvailable := lo.testBit 7
  authenticData := lo.testBit 5
  checkingDisabled := lo.testBit 4
  rcode := lo % 16

/-- The first byte of flags as it is written. -/
def firstFlags (h : Header) : Nat :=
  Writer.flag 7 h.response + h.opcode % 16 * 8 + Writer.flag 2 h.authoritative
    + Writer.flag 1 h.truncated + Writer.flag 0 h.recursionDesired

/-- The second byte of flags as it is written. -/
def secondFlags (h : Header) : Nat :=
  Writer.flag 7 h.recursionAvailable + Writer.flag 5 h.authenticData
    + Writer.flag 4 h.checkingDisabled + h.rcode % 16

section Headers

variable {bs : Bytes} {c : Cursor} {pos width x : Nat}

theorem firstFlags_bits : ∀ (response authoritative truncated recursionDesired : Bool)
    (opcode : Fin 16),
    let n := (UInt8.ofNat (Writer.flag 7 response + opcode % 16 * 8 + Writer.flag 2 authoritative
      + Writer.flag 1 truncated + Writer.flag 0 recursionDesired)).toNat
    n.testBit 7 = response ∧ n / 8 % 16 = opcode ∧ n.testBit 2 = authoritative ∧
      n.testBit 1 = truncated ∧ n.testBit 0 = recursionDesired := by decide

theorem secondFlags_bits : ∀ (recursionAvailable authenticData checkingDisabled : Bool)
    (rcode : Fin 16),
    let n := (UInt8.ofNat (Writer.flag 7 recursionAvailable + Writer.flag 5 authenticData
      + Writer.flag 4 checkingDisabled + rcode % 16)).toNat
    n.testBit 7 = recursionAvailable ∧ n.testBit 5 = authenticData ∧
      n.testBit 4 = checkingDisabled ∧ n % 16 = rcode := by decide

/-- A header is read back from the flags that are written for it, if its codes fit. -/
theorem headerFrom_flags (h : Header) (hopcode : h.opcode < 16) (hrcode : h.rcode < 16) :
    headerFrom h.id (UInt8.ofNat (firstFlags h)).toNat (UInt8.ofNat (secondFlags h)).toNat = h := by
  obtain ⟨h₁, h₂, h₃, h₄, h₅⟩ := firstFlags_bits h.response h.authoritative h.truncated
    h.recursionDesired ⟨h.opcode, hopcode⟩
  obtain ⟨h₆, h₇, h₈, h₉⟩ := secondFlags_bits h.recursionAvailable h.authenticData
    h.checkingDisabled ⟨h.rcode, hrcode⟩
  unfold headerFrom firstFlags secondFlags
  rw [h₁, h₂, h₃, h₄, h₅, h₆, h₇, h₈, h₉]

theorem header_eq (c : Cursor) :
    header c = (number 2 c).bind fun id => (number 1 id.2).bind fun hi =>
      (number 1 hi.2).bind fun lo => (number 2 lo.2).bind fun n => (number 2 n.2).bind fun n₁ =>
        (number 2 n₁.2).bind fun n₂ => (number 2 n₂.2).bind fun n₃ =>
          some ((headerFrom (UInt16.ofNat id.1) hi.1 lo.1, n.1, n₁.1, n₂.1, n₃.1), n₃.2) := by
  show (u16 c).bind _ = _
  rw [u16_eq, Option.bind_assoc]
  rfl

theorem number_cursorAt (h : number width (cursorAt bs pos) = some (x, c)) :
    x < Nat.pow 256 width ∧ bs.drop pos = BigEndian.encode width x ++ bs.drop (pos + width) ∧
      c = cursorAt bs (pos + width) := by
  rw [number_eq] at h
  obtain ⟨⟨u, c'⟩, hbytes, h⟩ := Option.bind_eq_some_iff.mp h
  cases h
  obtain ⟨hlen, hu, hc⟩ := bytes_cursorAt hbytes
  exact ⟨BigEndian.value_lt hlen, by rw [BigEndian.encode_value hlen]; exact hu, hc⟩

theorem number_encode {whole rest : Bytes} :
    number width ⟨whole, pos, BigEndian.encode width x ++ rest⟩ =
      some (BigEndian.value (BigEndian.encode width x), ⟨whole, pos + width, rest⟩) := by
  rw [number_eq, bytes_append (BigEndian.length_encode ..), Option.bind_some]

theorem number_byte {whole rest : Bytes} {b : UInt8} :
    number 1 ⟨whole, pos, [b] ++ rest⟩ = some (b.toNat, ⟨whole, pos + 1, rest⟩) := by
  rw [number_eq, bytes_append (List.length_singleton ..), Option.bind_some]
  exact congrArg (fun v => some (v, _)) (Nat.zero_add _)

/-- The bytes of a header that was read: identifier and number of questions, with other bytes
after each. -/
theorem header_cursorAt {h : Header} {n : Nat} {counts : Nat × Nat × Nat}
    (hread : header (cursorAt bs 0) = some ((h, n, counts), c)) :
    h.opcode < 16 ∧ n < 65536 ∧ c = cursorAt bs 12 ∧
      ∃ flags others, flags.length = 2 ∧ others.length = 6 ∧
        bs = BigEndian.encode 2 h.id.toNat ++ (flags ++ (BigEndian.encode 2 n ++ (others ++ bs.drop 12))) := by
  rw [header_eq] at hread
  obtain ⟨⟨id, c₁⟩, hid, hread⟩ := Option.bind_eq_some_iff.mp hread
  obtain ⟨⟨hi, c₂⟩, hhi, hread⟩ := Option.bind_eq_some_iff.mp hread
  obtain ⟨⟨lo, c₃⟩, hlo, hread⟩ := Option.bind_eq_some_iff.mp hread
  obtain ⟨⟨n, c₄⟩, hn, hread⟩ := Option.bind_eq_some_iff.mp hread
  obtain ⟨⟨n₁, c₅⟩, hn₁, hread⟩ := Option.bind_eq_some_iff.mp hread
  obtain ⟨⟨n₂, c₆⟩, hn₂, hread⟩ := Option.bind_eq_some_iff.mp hread
  obtain ⟨⟨n₃, c₇⟩, hn₃, hread⟩ := Option.bind_eq_some_iff.mp hread
  cases hread
  obtain ⟨hlt, hdrop, rfl⟩ := number_cursorAt hid
  obtain ⟨-, hdrop₁, rfl⟩ := number_cursorAt hhi
  obtain ⟨-, hdrop₂, rfl⟩ := number_cursorAt hlo
  obtain ⟨hltn, hdrop₃, rfl⟩ := number_cursorAt hn
  obtain ⟨-, hdrop₄, rfl⟩ := number_cursorAt hn₁
  obtain ⟨-, hdrop₅, rfl⟩ := number_cursorAt hn₂
  obtain ⟨-, hdrop₆, rfl⟩ := number_cursorAt hn₃
  have hid : (UInt16.ofNat id).toNat = id := UInt16.toNat_ofNat_of_lt' hlt
  refine ⟨Nat.mod_lt _ (by decide), hltn, rfl, BigEndian.encode 1 hi ++ BigEndian.encode 1 lo,
    BigEndian.encode 2 n₁ ++ BigEndian.encode 2 n₂ ++ BigEndian.encode 2 n₃, by simp, by simp, ?_⟩
  rw [List.drop_zero, hdrop₁, hdrop₂, hdrop₃, hdrop₄, hdrop₅, hdrop₆] at hdrop
  rw [headerFrom, hid]
  simpa only [List.append_assoc] using hdrop

/-- The header that the bytes of a header say. -/
theorem header_bytes (whole rest : Bytes) (id n answers : Nat) (hi lo : UInt8) :
    header ⟨whole, 0, BigEndian.encode 2 id ++ ([hi] ++ ([lo] ++ (BigEndian.encode 2 n ++
      (BigEndian.encode 2 answers ++ (BigEndian.encode 2 0 ++ (BigEndian.encode 2 0 ++ rest))))))⟩ =
      some ((headerFrom (UInt16.ofNat (BigEndian.value (BigEndian.encode 2 id))) hi.toNat lo.toNat,
        BigEndian.value (BigEndian.encode 2 n), BigEndian.value (BigEndian.encode 2 answers), 0, 0),
        ⟨whole, 12, rest⟩) := by
  rw [header_eq]
  simp only [number_encode, number_byte, Option.bind_some]
  rfl

/-- A header is read back as it is written, if its codes and the number of questions fit. -/
theorem header_written {h : Header} (hopcode : h.opcode < 16) (hrcode : h.rcode < 16) {n : Nat}
    (hn : n < 65536) (answers : Nat) (rest : Bytes) :
    ∃ counts, header (cursorAt (Writer.header h n answers 0 0 ++ rest) 0) =
      some ((h, n, counts), cursorAt (Writer.header h n answers 0 0 ++ rest) 12) := by
  have hbytes : Writer.header h n answers 0 0 ++ rest = BigEndian.encode 2 h.id.toNat ++
      ([UInt8.ofNat (firstFlags h)] ++ ([UInt8.ofNat (secondFlags h)] ++ (BigEndian.encode 2 n ++
        (BigEndian.encode 2 answers ++ (BigEndian.encode 2 0 ++ (BigEndian.encode 2 0 ++ rest)))))) := by
    simp only [Writer.header, firstFlags, secondFlags, List.append_assoc, List.cons_append,
      List.nil_append]
  have hdrop : (Writer.header h n answers 0 0 ++ rest).drop 12 = rest :=
    List.drop_left' (by simp [Writer.header])
  have hread := header_bytes (Writer.header h n answers 0 0 ++ rest) rest
    h.id.toNat n answers (UInt8.ofNat (firstFlags h)) (UInt8.ofNat (secondFlags h))
  rw [← hbytes, BigEndian.value_encode h.id.toNat_lt, UInt16.ofNat_toNat,
    headerFrom_flags h hopcode hrcode, BigEndian.value_encode hn] at hread
  refine ⟨(BigEndian.value (BigEndian.encode 2 answers), 0, 0), ?_⟩
  rw [cursorAt, cursorAt, hdrop, List.drop_zero]
  exact hread

end Headers

/-! ## The front of a message -/

/-- What bytes say at their front: a header and questions. -/
def front : Reader (Header × List Question) := do
  let (h, n, _) ← header
  return (h, ← times question n)

theorem front_eq {c : Cursor} {h : Header} {n : Nat} {counts : Nat × Nat × Nat} {c' : Cursor}
    (hread : header c = some ((h, n, counts), c')) :
    front c = (times question n c').bind fun p => some ((h, p.1), p.2) := by
  show (header c).bind _ = _
  rw [hread]
  rfl

/-- A message was read from a header and questions, of which the header may have been given another
response code since. -/
theorem message_front {bs : Bytes} {m : Message} (h : Message.decode bs = some m) :
    ∃ header n counts c c', Reader.header (cursorAt bs 0) = some ((header, n, counts), c) ∧
      times question n c = some (m.questions, c') ∧ ∃ rcode, m.header = { header with rcode } := by
  unfold Message.decode Reader.run at h
  obtain ⟨⟨m', last⟩, hread, hm⟩ := Option.map_eq_some_iff.mp h
  obtain ⟨⟨⟨header, n, nAnswers, nAuthority, nAdditional⟩, c⟩, hheader, hread⟩ :=
    Option.bind_eq_some_iff.mp hread
  obtain ⟨⟨questions, c'⟩, hquestions, hread⟩ := Option.bind_eq_some_iff.mp hread
  obtain ⟨⟨answers, c₂⟩, -, hread⟩ := Option.bind_eq_some_iff.mp hread
  obtain ⟨⟨authority, c₃⟩, -, hread⟩ := Option.bind_eq_some_iff.mp hread
  obtain ⟨⟨additional, c₄⟩, -, hread⟩ := Option.bind_eq_some_iff.mp hread
  cases hm
  dsimp only at hread
  rcases hsplit : splitExtension additional with _ | ⟨extension, others⟩
  · rw [hsplit] at hread
    cases hread
  · rw [hsplit] at hread
    cases hread
    exact ⟨header, n, _, c, c', hheader, hquestions, _, rfl⟩

end Reader

end DnsGate.Dns

namespace DnsGate.Serve

open Dns (AgreeOn Within cursorAt questionStretches)

/-! ## Requests -/

/-- The places whose bytes a reply has from the request: the identifier, the number of questions,
and the questions themselves. -/
def Unchanged (i : Nat) : Prop := i < 2 ∨ (4 ≤ i ∧ i < 6) ∨ headerLength ≤ i

instance : DecidablePred Unchanged := fun _ => inferInstanceAs (Decidable (_ ∨ _ ∨ _))

section Requests

variable {bs : Bytes} {m : Dns.Message}

theorem Request.decode_eq (bs : Bytes) :
    Request.decode bs = (Dns.Message.decode bs).bind fun m =>
      ((Dns.Reader.header (cursorAt bs 0)).bind fun p =>
        Dns.Reader.times Dns.Reader.question p.1.2.1 p.2).bind fun p =>
          some ⟨m.header, p.1, (bs.take p.2.pos).drop headerLength⟩ := rfl

/-- A message that can be read is a request with the same header and questions.  It starts with a
header, and its questions are read alike from bytes that agree on unchanged places. -/
theorem request_of_message (h : Dns.Message.decode bs = some m) :
    m.header.opcode < 16 ∧ m.questions.length < 65536 ∧ ∃ stop,
      Request.decode bs = some ⟨m.header, m.questions, (bs.take stop).drop headerLength⟩ ∧
      (∃ flags others, flags.length = 2 ∧ bs = BigEndian.encode 2 m.header.id.toNat ++
        (flags ++ (BigEndian.encode 2 m.questions.length ++ (others ++ bs.drop headerLength)))) ∧
      ∀ bs', AgreeOn Unchanged stop bs bs' →
        Within Unchanged (questionStretches bs m.questions.length headerLength) →
        Dns.Reader.times Dns.Reader.question m.questions.length (cursorAt bs' headerLength) =
          some (m.questions, cursorAt bs' stop) := by
  obtain ⟨header, n, counts, c, c', hheader, hquestions, rcode, hcode⟩ := Dns.Reader.message_front h
  obtain ⟨hopcode, hn, rfl, flags, others, hflags, -, hbs⟩ := Dns.Reader.header_cursorAt hheader
  obtain ⟨hlen, stop, -, rfl, hagain⟩ := Dns.Reader.questions_agree (K := Unchanged) hquestions
  subst hlen
  refine ⟨by rw [hcode]; exact hopcode, hn, stop, ?_, ⟨flags, others, hflags, by rw [hcode]; exact hbs⟩,
    fun bs' hsame hstretches => hagain bs' hsame (fun i hi => Or.inr (Or.inr hi)) hstretches⟩
  rw [Request.decode_eq, h, Option.bind_some, hheader, Option.bind_some, hquestions,
    Option.bind_some]
  rfl

/-- Behind another header, the bytes of a message have what they had at unchanged places. -/
theorem agreeOn_behind {front flags flags' number others others' records : Bytes} {stop : Nat}
    (hfront : front.length = 2) (hflags : flags.length = 2) (hflags' : flags'.length = 2)
    (hnumber : number.length = 2) (hothers' : others'.length = 6)
    (hbs : bs = front ++ (flags ++ (number ++ (others ++ bs.drop headerLength)))) :
    AgreeOn Unchanged stop bs (front ++ (flags' ++ (number ++ (others' ++
      ((bs.take stop).drop headerLength ++ records))))) := by
  intro i hi hK b hb
  rcases hK with hK | ⟨hK, hK'⟩ | hK
  · rw [hbs, List.getElem?_append_left (by omega)] at hb
    rw [List.getElem?_append_left (by omega), hb]
  · rw [hbs, List.getElem?_append_right (by omega), List.getElem?_append_right (by omega),
      List.getElem?_append_left (by omega)] at hb
    rw [List.getElem?_append_right (by omega), List.getElem?_append_right (by omega),
      List.getElem?_append_left (by omega), hflags', ← hflags, hb]
  · have hlt : i < bs.length := (List.getElem?_eq_some_iff.mp hb).1
    have hlen : (front ++ (flags' ++ (number ++ others'))).length = headerLength := by
      simp only [List.length_append, hfront, hflags', hnumber, hothers', headerLength]
    rw [← List.append_assoc number, ← List.append_assoc flags', ← List.append_assoc front,
      List.getElem?_append_right (by omega), hlen, List.getElem?_append_left, List.getElem?_drop,
      Nat.add_sub_of_le hK, List.getElem?_take_of_lt hi, hb]
    rw [List.length_drop, List.length_take]
    omega

/-- The bytes of a reply say its header, and the questions of the request if these have their names
from unchanged places alone. -/
theorem front_encode (h : Dns.Message.decode bs = some m)
    (hstretches : Within Unchanged (questionStretches bs m.questions.length headerLength))
    {request : Request} (hrequest : Request.decode bs = some request) {reply : Reply}
    (hid : reply.header.id = m.header.id) (hopcode : reply.header.opcode < 16)
    (hrcode : reply.header.rcode < 16) :
    Dns.Reader.run Dns.Reader.front (reply.encode request) = some (reply.header, m.questions) := by
  obtain ⟨-, hn, stop, hdecode, ⟨flags, others, hflags, hbs⟩, hagain⟩ := request_of_message h
  cases hrequest.symm.trans hdecode
  unfold Reply.encode
  dsimp only
  rw [List.append_assoc]
  generalize recordsBytes _ reply.answers = records
  have hsame : AgreeOn Unchanged stop bs
      (Dns.Writer.header reply.header m.questions.length reply.answers.length 0 0 ++
        ((bs.take stop).drop headerLength ++ records)) := by
    unfold Dns.Writer.header
    rw [hid, List.append_assoc, List.append_assoc, List.append_assoc, List.append_assoc,
      List.append_assoc]
    rw [← List.append_assoc (BigEndian.encode 2 0),
      ← List.append_assoc (BigEndian.encode 2 reply.answers.length)]
    exact agreeOn_behind (BigEndian.length_encode ..) hflags rfl (BigEndian.length_encode ..) rfl hbs
  obtain ⟨counts, hheader⟩ := Dns.Reader.header_written hopcode hrcode hn reply.answers.length
    ((bs.take stop).drop headerLength ++ records)
  generalize Dns.Writer.header _ _ _ 0 0 ++ _ = whole at hsame hheader ⊢
  show (Dns.Reader.front (cursorAt whole 0)).map _ = _
  rw [Dns.Reader.front_eq hheader]
  rw [show cursorAt whole 12 = cursorAt whole headerLength from rfl, hagain whole hsame hstretches]
  rfl

end Requests

/-! ## Replies -/

section Replies

variable (w : Wiring) (s : Surroundings) (now : UInt64)

/-- The two ways to a reply agree.  Whatever the state, a message that can be read is a request as
well, and both ways have the same header (but for the bit that switches checking off, which only a
reply on the wire has from its request), the same answers in order, and the same final state.  The
bytes of the reply say that header, and the questions of the other way if no question has its name,
as far as its pointers lead, from bytes of the header that the reply has anew. -/
theorem entry_points_agree (st : State) {bs : Bytes} {m : Dns.Message}
    (h : Dns.Message.decode bs = some m) :
    ∃ request, Request.decode bs = some request ∧ ∃ message reply after,
      (serve w s now m).run st = (message, after) ∧
      (respond w s now request).run st = (reply, after) ∧
      { reply.header with checkingDisabled := false } = message.header ∧
      reply.answers = message.answers ∧
      (Within Unchanged (questionStretches bs m.questions.length headerLength) →
        Dns.Reader.run Dns.Reader.front (reply.encode request) =
          some (reply.header, message.questions)) := by
  obtain ⟨hopcode, -, stop, hrequest, -, -⟩ := request_of_message h
  rcases hall : (resolveAll w s now m.questions).run st with ⟨answers, after⟩
  let header := replyHeader m.header
  refine ⟨_, hrequest, ⟨{ header with checkingDisabled := false }, m.questions, answers, [], []⟩,
    ⟨header, answers⟩, after, ?_, ?_, rfl, rfl,
    fun hstretches => front_encode h hstretches hrequest rfl hopcode (Nat.zero_lt_succ 15)⟩
  · unfold serve
    rw [StateT.run_bind, hall]
    rfl
  · unfold respond
    rw [StateT.run_bind, hall]
    rfl

end Replies

/-- A request with two questions, for `ads.test` and, by a pointer, for `test`. -/
def pointing : Bytes :=
  [0x00, 0x07, 0x01, 0x00, 0x00, 0x02, 0x00, 0x00, 0x00, 0x00, 0x00, 0x00,
   0x03, 0x61, 0x64, 0x73, 0x04, 0x74, 0x65, 0x73, 0x74, 0x00, 0x00, 0x01, 0x00, 0x01,
   0xC0, 0x10, 0x00, 0x1C, 0x00, 0x01]

/-- What `pointing` says. -/
def pointed : Dns.Message where
  header := { id := 7, recursionDesired := true }
  questions := [⟨ads, Dns.RType.a, 1⟩, ⟨⟨[[0x74, 0x65, 0x73, 0x74]]⟩, Dns.RType.aaaa, 1⟩]

theorem pointed_answered : Dns.Message.decode pointing = some pointed ∧
    ∃ request, Request.decode pointing = some request ∧ ∃ message reply after,
      (serve ⟨⟨[], 0⟩, none, none⟩ ⟨.unreachable, .idle⟩ 0 pointed).run adsBlocked =
        (message, after) ∧
      (respond ⟨⟨[], 0⟩, none, none⟩ ⟨.unreachable, .idle⟩ 0 request).run adsBlocked =
        (reply, after) ∧
      { reply.header with checkingDisabled := false } = message.header ∧
      reply.answers = message.answers ∧
      Dns.Reader.run Dns.Reader.front (reply.encode request) =
        some (reply.header, message.questions) := by
  have hdecode : Dns.Message.decode pointing = some pointed := by decide +kernel
  have hstretches : Within Unchanged
      (questionStretches pointing pointed.questions.length headerLength) := by decide +kernel
  obtain ⟨request, hrequest, message, reply, after, hserve, hrespond, hheader, hanswers, hfront⟩ :=
    entry_points_agree ⟨⟨[], 0⟩, none, none⟩ ⟨.unreachable, .idle⟩ 0 adsBlocked hdecode
  exact ⟨hdecode, request, hrequest, message, reply, after, hserve, hrespond, hheader, hanswers,
    hfront hstretches⟩

/-- A request whose question has its name by a pointer to the identifier, which spells `a`. -/
def misleading : Bytes :=
  [0x01, 0x61, 0x00, 0x00, 0x00, 0x01, 0x00, 0x00, 0x00, 0x00, 0x00, 0x00,
   0xC0, 0x00, 0x00, 0x01, 0x00, 0x01]

/-- A name that ends in the flags of the request is not the name that the bytes of the reply spell:
there the flags are others, and no question can be read. -/
theorem question_from_header :
    ∃ m request, Dns.Message.decode misleading = some m ∧ Request.decode misleading = some request ∧
      ((serve ⟨⟨[], 0⟩, none, none⟩ ⟨.unreachable, .idle⟩ 0 m).run adsBlocked).1.questions =
        [⟨⟨[[0x61]]⟩, Dns.RType.a, 1⟩] ∧
      Dns.Reader.run Dns.Reader.front
        (((respond ⟨⟨[], 0⟩, none, none⟩ ⟨.unreachable, .idle⟩ 0 request).run adsBlocked).1.encode
          request) = none := by
  refine ⟨⟨{ id := 0x0161 }, [⟨⟨[[0x61]]⟩, Dns.RType.a, 1⟩], [], [], []⟩,
    ⟨{ id := 0x0161 }, [⟨⟨[[0x61]]⟩, Dns.RType.a, 1⟩], misleading.drop 12⟩, ?_, ?_, rfl, ?_⟩
  · decide +kernel
  · decide +kernel
  · decide +kernel

end DnsGate.Serve
