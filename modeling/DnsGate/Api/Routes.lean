import DnsGate.Api.JsonText
import DnsGate.Api.MediaType
import DnsGate.Program.App
import DnsGate.Rules.Request
import DnsGate.Text.Timestamp

/-!
The management interface over HTTP.

* `GET /health`
* `GET`, `POST`, `DELETE` on `/domains` and `/suffixes`: list, add and remove rules
* `GET /blocklist`, `POST /blocklist/refresh`, `PUT /blocklist/sources`
* `GET /cache/stats`

`HEAD` is answered like `GET`, without the body.
-/

namespace DnsGate.Api

/-! ## Requests and responses -/

structure HttpRequest where
  method : String
  /-- The path, perhaps with a query or a fragment after it. -/
  path : String
  body : Bytes := []
  contentType : Option String := none
deriving DecidableEq, Repr

structure HttpResponse where
  status : Nat
  contentType : Option String := none
  body : String := ""
deriving DecidableEq, Repr

namespace HttpResponse

def plain (status : Nat) (body : String) : HttpResponse :=
  ⟨status, some "text/plain; charset=utf-8", body⟩

def json (body : String) : HttpResponse := ⟨200, some "application/json", body⟩

/-- A response that says nothing but its status. -/
def empty (status : Nat) : HttpResponse := ⟨status, none, ""⟩

/-- A request that cannot be taken. -/
def refused (status : Nat) (reason : String) : HttpResponse := .plain status reason

end HttpResponse

/-! ## Routes -/

/-- What stands at a path. -/
inductive Resource where
  | health
  | rules (kind : Rules.Kind)
  | blocklist
  | refresh
  | sources
  | cacheStats
deriving DecidableEq, Repr

/-- A path without its query and its fragment. -/
def barePath (path : String) : String :=
  String.ofList (path.toList.takeWhile fun c => c ≠ '?' ∧ c ≠ '#')

/-- The resource at a bare path. -/
def Resource.at? : String → Option Resource
  | "/health" => some .health
  | "/domains" => some (.rules .domain)
  | "/suffixes" => some (.rules .suffix)
  | "/blocklist" => some .blocklist
  | "/blocklist/refresh" => some .refresh
  | "/blocklist/sources" => some .sources
  | "/cache/stats" => some .cacheStats
  | _ => none

/-- What is asked for. -/
inductive Action where
  | health
  | cacheStats
  /-- A request to the management interface. -/
  | admin (r : Admin.Request)
  | reject (response : HttpResponse)
deriving DecidableEq, Repr

/-- The most bytes of a body that is read. -/
def bodyLimit : Nat := 2097152

/-- The response to a body that is longer. -/
def HttpResponse.tooLong : HttpResponse :=
  .refused 413 "Failed to buffer the request body: length limit exceeded"

/-- An edit of rules by a body, which must be text. -/
def editAction (e : Admin.Edit) (kind : Rules.Kind) (body : Bytes) : Action :=
  if bodyLimit < body.length then .reject .tooLong
  else match Utf8.decode? body with
  | some text => .admin (.edit e kind (Rules.entriesOf text))
  | none => .reject (.refused 400 "Request body didn't contain valid UTF-8")

/-- A change of the sources by a body, which must be a list of texts and say that it is JSON. -/
def sourcesAction (contentType : Option String) (body : Bytes) : Action :=
  if !contentType.any isJsonType then
    .reject (.refused 415 "Expected request with `Content-Type: application/json`")
  else if bodyLimit < body.length then .reject .tooLong
  else match parseTexts body with
    | .ok sources => .admin (.setSources sources)
    | .error .malformed => .reject (.refused 400 "Failed to parse the request body as JSON")
    | .error .shape =>
      .reject (.refused 422 "Failed to deserialize the JSON body into the target type")

/-- What a method asks of a resource, if it may be asked that. -/
def actionFor? (resource : Resource) (r : HttpRequest) : Option Action :=
  match resource, r.method with
  | .health, "GET" => some .health
  | .cacheStats, "GET" => some .cacheStats
  | .rules kind, "GET" => some (.admin (.rules kind))
  | .rules kind, "POST" => some (editAction .add kind r.body)
  | .rules kind, "DELETE" => some (editAction .remove kind r.body)
  | .blocklist, "GET" => some (.admin .status)
  | .refresh, "POST" => some (.admin .refresh)
  | .sources, "PUT" => some (sourcesAction r.contentType r.body)
  | _, _ => none

/-- What a request asks for. -/
def HttpRequest.action (r : HttpRequest) : Action :=
  match Resource.at? (barePath r.path) with
  | none => .reject (.empty 404)
  | some resource => (actionFor? resource r).getD (.reject (.empty 405))

/-! ## Responses -/

def statusText : Option Admin.Status → String
  | none => statusObject false none 0 []
  | some s => statusObject true (s.refreshedAt.map Text.timestamp) s.count s.sources
where
  statusObject (enabled : Bool) (refreshedAt : Option String) (count : Nat)
      (sources : List String) : String :=
    jsonObject [("enabled", jsonBool enabled), ("last_refreshed_at", jsonOption refreshedAt),
      ("domain_count", Text.decimal count), ("sources", jsonTexts sources)]

def cacheText (c : Cache.Store) : String :=
  jsonObject [("entries", Text.decimal c.size), ("hits", Text.decimal c.hits),
    ("misses", Text.decimal c.misses)]

/-- The response that a reply of the management interface comes to. -/
def adminResponse {E : Type} : Admin.Reply E → HttpResponse
  | .rules entries => .json (jsonTexts entries)
  | .edited report => .plain 200 report.text
  | .status status => .json (statusText status)
  | .refreshing => .plain 202 "refresh scheduled"
  | .disabled => .plain 404 Admin.disabledMessage
  | .sourcesSet => .empty 204
  | .saved (.ok ()) => .empty 204
  | .saved (.error _) => .empty 500

/-- Carries out an action. -/
def Action.perform (a : Action) (p : Program.Plan) (st : Program.State) :
    HttpResponse × Program.State :=
  match a with
  | .health => (.plain 200 "OK", st)
  | .cacheStats => (.json (cacheText st.serve.cache), st)
  | .reject response => (response, st)
  | .admin r =>
    let (reply, st) := st.execute p r
    (adminResponse reply, st)

/-- Answers a request. -/
def respond (p : Program.Plan) (r : HttpRequest) (st : Program.State) :
    HttpResponse × Program.State :=
  if r.method = "HEAD" then
    let (response, st) := ({ r with method := "GET" } : HttpRequest).action.perform p st
    ({ response with body := "" }, st)
  else r.action.perform p st

end DnsGate.Api
