import DnsGate.Program.App
import DnsGate.Proofs.Editing
import DnsGate.Proofs.Sinkhole
import DnsGate.Serve.Delivery

/-!
Sessions of a server: messages come in, each with any number of questions, and between them the
clock is set, rules are edited, and the blocklist publishes generations.  A session is recorded
question by question, so that statements about it can speak of what was live when a question was
asked and of what it got and left behind.

A message gets the same reply for the same answers to its questions (`answer_run`).  Requests of the
management interface that edit rules, and refreshes of the blocklist, are turns of a session
(`execute_edit_serve`, `refresh_serve_publish`).
-/

namespace DnsGate.Serve

/-! ## Messages -/

/-- The questions of a message that comes in.  Bytes that are not taken as a request ask nothing. -/
def Delivery.questions : Delivery → List Dns.Question
  | drop | refuse _ => []
  | accept request => request.questions

/-- The bytes that go back, given the answers to the questions. -/
def Delivery.replyWith (limit : Option Nat) (records : List Dns.Record) : Delivery → Option Bytes
  | drop => none
  | refuse h => some (refusal h)
  | accept request =>
    let reply : Reply := ⟨replyHeader request.header, records⟩
    some (((limit.map (reply.cut · request)).getD reply).encode request)

/-- What comes in: a message, or the bytes of one with the most bytes that a reply may have. -/
inductive Inquiry where
  | message (m : Dns.Message)
  | bytes (limit : Option Nat) (bs : Bytes)

/-- What goes back. -/
inductive Answer where
  | message (m : Dns.Message)
  | bytes (bs : Option Bytes)

namespace Inquiry

def questions : Inquiry → List Dns.Question
  | message m => m.questions
  | bytes _ bs => (Delivery.of bs).questions

/-- Answers what came in. -/
def answer (w : Wiring) (s : Surroundings) (now : UInt64) : Inquiry → Serving Answer
  | message m => do return .message (← serve w s now m)
  | bytes limit bs => do return .bytes (← deliver w s now limit bs)

/-- What goes back, given the answers to the questions. -/
def replyWith (records : List Dns.Record) : Inquiry → Answer
  | message m => .message {
      header := { replyHeader m.header with checkingDisabled := false }
      questions := m.questions
      answers := records }
  | bytes limit bs => .bytes ((Delivery.of bs).replyWith limit records)

end Inquiry

section Answers

variable {w : Wiring} {s : Surroundings} {now : UInt64} {st after : State}
  {each : List (List Dns.Record)}

theorem deliver_run {limit : Option Nat} {bs : Bytes}
    (h : (resolveEach w s now (Delivery.of bs).questions).run st = (each, after)) :
    (deliver w s now limit bs).run st =
      ((Delivery.of bs).replyWith limit each.flatten, after) := by
  unfold deliver
  cases hd : Delivery.of bs with
  | drop =>
    rw [hd] at h
    cases h
    rfl
  | refuse header =>
    rw [hd] at h
    cases h
    rfl
  | accept request =>
    rw [hd] at h
    unfold respond
    have hall : (resolveAll w s now request.questions).run st = (each.flatten, after) :=
      resolveAll_run h
    rw [StateT.run_bind, StateT.run_bind, hall]
    rfl

/-- What goes back is determined by the answers to the questions, one question after the other. -/
theorem Inquiry.answer_run {i : Inquiry}
    (h : (resolveEach w s now i.questions).run st = (each, after)) :
    (i.answer w s now).run st = (i.replyWith each.flatten, after) := by
  cases i with
  | message m =>
    unfold answer serve
    have hall : (resolveAll w s now m.questions).run st = (each.flatten, after) :=
      resolveAll_run h
    rw [StateT.run_bind, StateT.run_bind, hall]
    rfl
  | bytes limit bs =>
    unfold answer
    rw [StateT.run_bind, deliver_run h]
    rfl

end Answers

/-! ## Questions -/

/-- A question that was asked: what was live at that moment, the answers to it, and what the cache
held and what had been sent after it. -/
structure Asked where
  live : Live
  question : Dns.Question
  answers : List Dns.Record
  cache : Cache.Store
  traffic : Forward.Traffic

section Questions

variable (w : Wiring) (s : Surroundings) (now : UInt64)

/-- Asks questions one after the other: the record of them, and the state after them. -/
def askAll : List Dns.Question → State → List Asked × State
  | [], st => ([], st)
  | q :: qs, st =>
    let (answers, after) := (resolveQuestion w s now q).run st
    let (asked, last) := askAll qs after
    (⟨st.live, q, answers, after.cache, after.traffic⟩ :: asked, last)

variable {w s now}

theorem askAll_cons {q : Dns.Question} {qs : List Dns.Question} {st after last : State}
    {answers : List Dns.Record} {asked : List Asked}
    (hq : (resolveQuestion w s now q).run st = (answers, after))
    (hqs : askAll w s now qs after = (asked, last)) :
    askAll w s now (q :: qs) st =
      (⟨st.live, q, answers, after.cache, after.traffic⟩ :: asked, last) := by
  rw [askAll, hq]
  dsimp only
  rw [hqs]

theorem resolveEach_askAll (qs : List Dns.Question) (st : State) :
    (resolveEach w s now qs).run st =
      ((askAll w s now qs st).1.map (·.answers), (askAll w s now qs st).2) := by
  induction qs generalizing st with
  | nil => rfl
  | cons q qs ih =>
    rcases hq : (resolveQuestion w s now q).run st with ⟨answers, after⟩
    rcases hqs : askAll w s now qs after with ⟨asked, last⟩
    rw [resolveEach_cons hq (ih after), askAll_cons hq hqs, hqs]
    rfl

end Questions

/-! ## Sessions -/

/-- What happens to a server. -/
inductive Turn where
  /-- Something comes in, in surroundings that may behave in any way. -/
  | inquiry (s : Surroundings) (i : Inquiry)
  /-- The clock is set, to any time. -/
  | clock (now : UInt64)
  /-- Rules are edited, in any way. -/
  | edit (rules : Rules.RuleSet)
  /-- The blocklist, if there is one, publishes a generation. -/
  | publish (g : Blocklist.Generation)

/-- A server at a time. -/
structure Scene where
  now : UInt64
  state : State

/-- What came of an inquiry. -/
structure Exchange where
  asked : List Asked
  answer : Answer

/-- The rules and the blocklist with another generation in it. -/
def Live.publish (l : Live) (g : Blocklist.Generation) : Live :=
  { l with blocklist := l.blocklist.map fun m => { m with generation := g } }

namespace Scene

/-- The server after something has come in. -/
def hear (w : Wiring) (c : Scene) (s : Surroundings) (i : Inquiry) : Exchange × Scene :=
  let (answer, state) := (i.answer w s c.now).run c.state
  (⟨(askAll w s c.now i.questions c.state).1, answer⟩, { c with state })

/-- What a turn leaves of the server, and the exchange if it is one. -/
def turn (w : Wiring) (c : Scene) : Turn → List Exchange × Scene
  | .inquiry s i => ([(c.hear w s i).1], (c.hear w s i).2)
  | .clock now => ([], { c with now })
  | .edit rules => ([], { c with state := { c.state with live := { c.state.live with rules } } })
  | .publish g => ([], { c with state := { c.state with live := c.state.live.publish g } })

/-- The exchanges of a session, and the server after it. -/
def play (w : Wiring) : List Turn → Scene → List Exchange × Scene
  | [], c => ([], c)
  | t :: ts, c =>
    let (exchanges, c) := c.turn w t
    let (more, c) := play w ts c
    (exchanges ++ more, c)

/-- The questions of a session, in the order in which they were asked. -/
def asked (w : Wiring) (ts : List Turn) (c : Scene) : List Asked :=
  (c.play w ts).1.flatMap (·.asked)

theorem hear_eq (w : Wiring) (c : Scene) (s : Surroundings) (i : Inquiry) :
    c.hear w s i =
      (⟨(askAll w s c.now i.questions c.state).1, i.replyWith
          ((askAll w s c.now i.questions c.state).1.map (·.answers)).flatten⟩,
        { c with state := (askAll w s c.now i.questions c.state).2 }) := by
  unfold hear
  rw [Inquiry.answer_run (resolveEach_askAll i.questions c.state)]

end Scene

end DnsGate.Serve

/-! ## Turns of the program -/

namespace DnsGate.Program

/-- A request that edits rules is a turn that does. -/
theorem execute_edit_serve (w : Serve.Wiring) (st : State) (p : Plan) (e : Admin.Edit)
    (kind : Rules.Kind) (entries : List String) (now : UInt64) :
    ∃ rules, Serve.Scene.mk now (st.execute p (.edit e kind entries)).2.serve =
      (Serve.Scene.turn w ⟨now, st.serve⟩ (.edit rules)).2 := by
  have hblocklist := Admin.editRules_blocklist e kind entries ⟨st.serve.live, st.sections⟩
  refine ⟨(Admin.editRules e kind entries ⟨st.serve.live, st.sections⟩).2.live.rules, ?_⟩
  show Serve.Scene.mk now { st.serve with
      live := (Admin.editRules e kind entries ⟨st.serve.live, st.sections⟩).2.live } =
    Serve.Scene.mk now { st.serve with
      live := ⟨_, (⟨st.serve.live, st.sections⟩ : Admin.State).live.blocklist⟩ }
  rw [← hblocklist]

/-- A refresh is a turn in which the blocklist publishes a generation. -/
theorem refresh_serve_publish (w : Serve.Wiring) (st : State)
    (web : String → Blocklist.WebReply) (time : Int) (now : UInt64) :
    ∃ g, Serve.Scene.mk now (st.refresh web time).2.serve =
      (Serve.Scene.turn w ⟨now, st.serve⟩ (.publish g)).2 := by
  unfold State.refresh Serve.Scene.turn Serve.Live.publish
  cases h : st.serve.live.blocklist with
  | none =>
    refine ⟨{}, ?_⟩
    show Serve.Scene.mk now st.serve = ⟨now, { st.serve with live := ⟨st.serve.live.rules, none⟩ }⟩
    rw [← h]
  | some m => exact ⟨_, rfl⟩

end DnsGate.Program
