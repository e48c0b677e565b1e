import DnsGate.Net.Endpoint
import DnsGate.Settings.Basic
import DnsGate.Settings.Error

/-!
Checking settings before anything is started with them.
-/

namespace DnsGate.Settings

/-- Endpoints by their texts; the first text that is none is told. -/
def endpoints : List String → Except Fault (List Net.Endpoint)
  | [] => .ok []
  | text :: rest =>
    match Net.Endpoint.parse? text with
    | some e => (endpoints rest).map (e :: ·)
    | none => .error (.listen text)

/-- The endpoints that the server listens at; there must be one. -/
def listenEndpoints (s : Settings) : Except Fault (List Net.Endpoint) :=
  if s.server.listen.isEmpty then .error .noListen else endpoints s.server.listen

/-- The endpoint of the management interface. -/
def apiEndpoint (s : Settings) : Except Fault (Option Net.Endpoint) :=
  match s.server.api with
  | none => .ok none
  | some text =>
    match Net.Endpoint.parse? text with
    | some e => .ok (some e)
    | none => .error (.api text)

/-- The first fault of settings. -/
def check (s : Settings) : Except Fault Unit := do
  let _ ← s.listenEndpoints
  let _ ← s.apiEndpoint
  if s.forwarding.timeout = 0 then throw .noTime
  if s.forwarding.servers.isEmpty then throw .noServers

end DnsGate.Settings
