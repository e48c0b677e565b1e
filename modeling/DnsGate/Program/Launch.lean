import DnsGate.Program.App
import DnsGate.Program.CommandLine
import DnsGate.Serve.Delivery

/-!
From the command line to the running program and its end.  The settings are loaded and checked, the
IP sets are created, and the endpoints are bound; the first of these that fails ends the program.
When it is stopped, it saves its settings; a failure to do so changes nothing.
-/

namespace DnsGate.Program

/-! ## Starting -/

/-- What the program finds when it is started. -/
structure Host where
  disk : Files.Disk
  tool : IpSet.Tool
  /-- Whether the program may listen on an endpoint. -/
  binds : Net.Endpoint → Bool

/-- Why the program does not start. -/
inductive StartError where
  | settings (cause : Settings.Failure)
  | ipSet (cause : IpSet.Failure)
  | noEndpoint
deriving DecidableEq, Repr

def StartError.message : StartError → String
  | .settings cause => cause.message
  | .ipSet cause => cause.message
  | .noEndpoint => "I/O error: no DNS listen address could be bound"

/-- What the program says when it does not start. -/
def StartError.report (e : StartError) : String := "Error: " ++ e.message

/-- Creates the IP sets of settings: the calls that are made, the last one first, and the failure
that ends them. -/
def createSets (s : Settings.IpSets) (tool : IpSet.Tool) : List IpSet.Call × Option IpSet.Failure :=
  IpSet.callAll tool [] (IpSet.creations s.ipv4Set s.ipv6Set s.timeout)

/-- The endpoints that checked settings name. -/
def endpointsOf (s : Settings) : List Net.Endpoint :=
  match s.listenEndpoints with
  | .ok endpoints => endpoints
  | .error _ => []

/-- A start: the calls of the tool, the last one first, and the running program. -/
structure Start where
  calls : List IpSet.Call := []
  result : Except StartError (Plan × State)

/-- Starts with loaded settings. -/
def startWith (host : Host) (path : String) (s : Settings) : Start :=
  match createSets s.ipSets host.tool with
  | (calls, some failure) => ⟨calls, .error (.ipSet failure)⟩
  | (calls, none) =>
    match Serve.listening? host.binds (endpointsOf s) with
    | none => ⟨calls, .error .noEndpoint⟩
    | some _ => ⟨calls, .ok (planFor s path, startState s host.disk)⟩

/-- Starts with the settings at a path. -/
def start (host : Host) (path : String) (o : Settings.Overrides) : Start :=
  match Settings.loadChecked host.disk path o with
  | .error cause => ⟨[], .error (.settings cause)⟩
  | .ok s => startWith host path s

/-! ## Stopping -/

/-- The disk when the program has ended. -/
def State.finish (st : State) (p : Plan) : Files.Disk := (p.keeper.save st.disk st.sections).2

end DnsGate.Program
