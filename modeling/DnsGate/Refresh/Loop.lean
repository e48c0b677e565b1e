/-!
The loop that keeps the blocklist fresh: one refresh at the start, then one at every tick of a
timer and one for every request that is taken, until it is stopped.  Ticks that were missed fire
one after the other and keep their schedule; a refresh that was requested starts the period anew
when it is done.  Times are in milliseconds.
-/

namespace DnsGate.Refresh

/-! ## The loop -/

/-- Why a refresh runs. -/
inductive Cause where
  | start
  | tick
  | request
deriving DecidableEq, Repr

/-- Where the loop stands. -/
inductive Phase where
  /-- Before the first refresh. -/
  | starting
  | refreshing (cause : Cause) (finish : Nat)
  | waiting
  | stopped
deriving DecidableEq, Repr

/-- What the loop and those who ask it do. -/
inductive Event where
  | refreshStarts
  | refreshEnds
  /-- A request is taken out of the slot. -/
  | requestTaken
  /-- A refresh is asked for. -/
  | force
  /-- The loop is told to stop. -/
  | cancel
  /-- Nothing; a mark in the log. -/
  | mark
deriving DecidableEq, Repr

/-- The loop, the slot for requests, the next tick, and how long the refreshes to come take. -/
structure Loop where
  period : Nat
  phase : Phase := .starting
  requested : Bool := false
  nextTick : Nat := 0
  durations : List Nat := []
deriving DecidableEq, Repr

/-- Events with their times. -/
abbrev Log := List (Nat × Event)

namespace Loop

/-- Starts a refresh.  The last one of the durations holds for all that follow. -/
def startRefresh (l : Loop) (now : Nat) (cause : Cause) : Loop :=
  match l.durations with
  | [] => { l with phase := .refreshing cause now }
  | [d] => { l with phase := .refreshing cause (now + d) }
  | d :: ds => { l with phase := .refreshing cause (now + d), durations := ds }

/-- When the loop does its next step; `none` if it is stopped. -/
def due? (l : Loop) (now : Nat) : Option Nat :=
  match l.phase with
  | .starting => some now
  | .refreshing _ finish => some (max now finish)
  | .waiting => some (if l.requested then now else max now l.nextTick)
  | .stopped => none

/-- The next step of the loop, and what it does. -/
def step (l : Loop) (now : Nat) : Loop × List Event :=
  match l.phase with
  | .starting => (l.startRefresh now .start, [.refreshStarts])
  | .refreshing cause _ =>
    ({ l with
      phase := .waiting
      nextTick := if cause = .tick then l.nextTick else now + l.period }, [.refreshEnds])
  | .waiting =>
    if l.requested then
      ({ l with requested := false }.startRefresh now .request, [.requestTaken, .refreshStarts])
    else
      ({ l with nextTick := l.nextTick + l.period }.startRefresh now .tick, [.refreshStarts])
  | .stopped => (l, [])

/-- What an event from outside does. -/
def receive (l : Loop) : Event → Loop
  | .force => { l with requested := true }
  | .cancel => { l with phase := .stopped }
  | _ => l

/-! ## Runs -/

/-- Lets the loop run until a time, for at most so many steps; `before` tells that a step at that
very time waits. -/
def runUntil (before : Bool) (limit : Nat) : Nat → Nat → Loop → Log → Loop × Log
  | 0, _, l, log => (l, log)
  | fuel + 1, now, l, log =>
    match l.due? now with
    | none => (l, log)
    | some due =>
      if due < limit ∨ (due = limit ∧ ¬before) then
        let (l, events) := l.step due
        runUntil before limit fuel due l (log ++ events.map (due, ·))
      else (l, log)

/-- Runs the loop through events from outside, in order of time.  Events at one time come before
what the loop does then. -/
def runThrough (fuel : Nat) : Nat → Log → Loop → Log → Loop × Log
  | now, [], l, log => runUntil false now fuel now l log
  | now, (time, e) :: es, l, log =>
    let (l, log) := runUntil true time fuel now l log
    runThrough fuel time es (l.receive e) (log ++ [(time, e)])

/-- Enough steps for a run up to a time. -/
def stepsUntil (l : Loop) (events : Log) (time : Nat) : Nat :=
  2 * (time / max 1 l.period) + 3 * events.length + 10

/-- The loop after some events, and the log of everything that happened. -/
def run (l : Loop) (events : Log) : Loop × Log :=
  let last := (events.getLast?.map Prod.fst).getD 0
  runThrough (l.stepsUntil events last) 0 events l []

end Loop

end DnsGate.Refresh
