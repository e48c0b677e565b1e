import DnsGate.Api.Routes

/-!
The management interface as the web server has it: all paths under `/api`, and pages from any place
may call it.  Every `OPTIONS` request is taken for the question whether they may.
-/

namespace DnsGate.Api

/-- What stands before all paths. -/
def webPrefix : String := "/api"

/-- A response and whose pages may read it. -/
structure WebResponse where
  response : HttpResponse
  allowOrigin : Option String
deriving DecidableEq, Repr

/-- Answers a request to the web server. -/
def webRespond (p : Program.Plan) (r : HttpRequest) (st : Program.State) :
    WebResponse × Program.State :=
  if r.method = "OPTIONS" then (⟨.empty 200, some "*"⟩, st)
  else
    match Text.after? webPrefix.toList r.path.toList with
    | none => (⟨.empty 404, some "*"⟩, st)
    | some path =>
      let (response, st) := respond p { r with path := String.ofList path } st
      (⟨response, some "*"⟩, st)

end DnsGate.Api
