import DnsGate.Admin.Edit
import DnsGate.Text.Blank

/-!
Requests of the management interface, and which of them save the settings.  A change stays in
force even if saving it fails; only a request to save tells that it failed.
-/

namespace DnsGate.Admin

/-! ## Changes -/

/-- Sources without blanks around them; empty ones are left out. -/
def cleanSources (sources : List String) : List String :=
  (sources.map Text.trim).filter (· ≠ "")

/-- Replaces the sources of the blocklist and asks for a refresh. -/
def updateSources (sources : List String) (s : State) : State :=
  let sources := cleanSources sources
  { live := { s.live with
      blocklist := s.live.blocklist.map fun m => (m.setSources sources).request }
    sections := s.sections.setSources sources }

/-- Asks for a refresh; `none` if there is no blocklist. -/
def requestRefresh? (s : State) : Option State :=
  s.live.blocklist.map fun m =>
    { s with live := { s.live with blocklist := some m.request } }

/-- What is told of the blocklist. -/
structure Status where
  refreshedAt : Option Int
  count : Nat
  sources : List String
deriving DecidableEq, Repr

/-- The status of the blocklist, if there is one. -/
def status? (s : State) : Option Status :=
  s.live.blocklist.map fun m => ⟨m.generation.refreshedAt, m.generation.count, m.sources⟩

/-! ## Requests -/

inductive Request where
  | rules (kind : Rules.Kind)
  | edit (e : Edit) (kind : Rules.Kind) (entries : List String)
  | status
  | refresh
  | setSources (sources : List String)
  | save
deriving DecidableEq, Repr

/-- Replies to requests; `E` is the type of errors of saving. -/
inductive Reply (E : Type) where
  | rules (entries : List String)
  | edited (report : Report)
  | status (status : Option Status)
  | refreshing
  /-- There is no blocklist. -/
  | disabled
  | sourcesSet
  | saved (result : Except E Unit)

/-- The message about a blocklist that is not there. -/
def disabledMessage : String := "blocklist is disabled"

/-- The text of the error that there is no blocklist. -/
def disabledError : String := "Resource not found: " ++ disabledMessage

/-- The state after a request, and whether the settings are then saved. -/
def Request.change (r : Request) (s : State) : State × Bool :=
  match r with
  | .rules _ | .status => (s, false)
  | .edit e kind entries =>
    let (report, s) := editRules e kind entries s
    (s, decide (0 < report.changed))
  | .refresh => ((requestRefresh? s).getD s, false)
  | .setSources sources => (updateSources sources s, true)
  | .save => (s, true)

/-- The reply to a request in a state, given what saving comes to. -/
def Request.reply {E : Type} (r : Request) (s : State) (saved : Except E Unit) : Reply E :=
  match r with
  | .rules kind => .rules (s.sections.rules kind)
  | .edit e kind entries => .edited (editRules e kind entries s).1
  | .status => .status (status? s)
  | .refresh => if (requestRefresh? s).isSome then .refreshing else .disabled
  | .setSources _ => .sourcesSet
  | .save => .saved saved

/-- Carries a request out: the change, then the saving if there is any.  `σ` is where sections are
saved. -/
def Request.execute {σ E : Type} (save : Rules.Sections → σ → Except E Unit × σ) (r : Request)
    (s : State) (store : σ) : Reply E × State × σ :=
  let (after, saves) := r.change s
  let (result, store) := if saves then save after.sections store else (.ok (), store)
  (r.reply s result, after, store)

end DnsGate.Admin
