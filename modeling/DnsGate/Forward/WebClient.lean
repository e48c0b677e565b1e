import DnsGate.Binary.BigEndian

/-!
The client that carries messages to web servers.  It waits for what it asked for as long as its
caller does, but no longer than a limit of its own (`webLimit`), which redirects and the body of the
answer count towards.  Redirects are followed by the client itself, up to ten (`maxRedirects`): the
caller sees what the last request comes to, and nothing of those before it.  A request that a server
turns away unread, so that the client makes it once more, counts as one.
-/

namespace DnsGate.Forward

/-- A request to a web server: the URL, and the message that it posts.  Without one, it only asks
for what there is. -/
structure WebRequest where
  url : String
  message : Option Bytes
deriving DecidableEq, Repr

/-- An answer that sends a client on to another URL, after so many milliseconds. -/
structure Redirect where
  delay : Nat
  status : Nat
  url : String
  moved : status ∈ [301, 302, 303, 307, 308] := by decide
deriving DecidableEq, Repr

/-- The request that follows a redirect.  Only after a 307 or a 308 is the message posted again. -/
def Redirect.next (r : Redirect) (request : WebRequest) : WebRequest :=
  ⟨r.url, if r.status = 307 ∨ r.status = 308 then request.message else none⟩

/-- What comes back for a request that is not redirected. -/
inductive Ending where
  /-- The request cannot be delivered, or the connection breaks. -/
  | broken
  /-- Nothing ever comes, or the answer never ends. -/
  | silent
  /-- An answer.  With status 200 the delay is that of its last byte, otherwise of its head. -/
  | answer (delay : Nat) (status : Nat) (body : Bytes)
deriving DecidableEq, Repr

/-- What a client meets on the web when it follows every redirect. -/
structure Visit where
  redirects : List Redirect := []
  ending : Ending
deriving DecidableEq, Repr

/-- How a request ends for a client that does not wait for ever. -/
inductive Arrival where
  | broken
  | late
  | answer (status : Nat) (body : Bytes)
deriving DecidableEq, Repr

/-- What a client does: the requests that it makes, for how long, and how the last one ends. -/
structure Trip where
  requests : List WebRequest
  time : Nat
  arrival : Arrival
deriving DecidableEq, Repr

/-- The trip with one request before it, which is redirected after a delay. -/
def Trip.after (t : Trip) (delay : Nat) (request : WebRequest) : Trip :=
  ⟨request :: t.requests, delay + t.time, t.arrival⟩

/-- How long the client waits at most, in milliseconds, however much time its caller has. -/
def webLimit : Nat := 10000

/-- How many redirects the client follows. -/
def maxRedirects : Nat := 10

/-- How long an ending is waited for with so much patience, and how the wait ends. -/
def Ending.wait (patience : Nat) : Ending → Nat × Arrival
  | .broken => (0, .broken)
  | .silent => (patience, .late)
  | .answer delay status body =>
    if patience < delay then (patience, .late) else (delay, .answer status body)

/-- What becomes of a request within a client's patience, in milliseconds, if it meets some
redirects and then an ending.  `room` is how many redirects may still be followed. -/
def browse (ending : Ending) (room : Nat) (patience : Nat) (request : WebRequest) :
    List Redirect → Trip
  | [] => ⟨[request], (ending.wait patience).1, (ending.wait patience).2⟩
  | r :: rest =>
    if patience < r.delay then ⟨[request], patience, .late⟩
    else if room = 0 then ⟨[request], r.delay, .broken⟩
    else (browse ending (room - 1) (patience - r.delay) (r.next request) rest).after r.delay request

/-- What the client makes of a visit when its caller has so many milliseconds left. -/
def Visit.trip (v : Visit) (left : Nat) (request : WebRequest) : Trip :=
  browse v.ending maxRedirects (min left webLimit) request v.redirects

end DnsGate.Forward
