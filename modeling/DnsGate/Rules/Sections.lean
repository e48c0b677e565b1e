import DnsGate.Rules.Form

/-!
The editable sections of the settings: the two rule lists and the blocklist sources, in the order
in which they are written back to the settings file.
-/

namespace DnsGate.Rules

/-- The lists that requests edit while the program runs. -/
structure Sections where
  domains : List String := []
  suffixes : List String := []
  sources : List String := []
deriving DecidableEq, Repr, Inhabited

namespace Sections

/-- The rule list of a kind. -/
def rules (s : Sections) : Kind → List String
  | .domain => s.domains
  | .suffix => s.suffixes

/-- The sections with another rule list of a kind. -/
def setRules (s : Sections) : Kind → List String → Sections
  | .domain, es => { s with domains := es }
  | .suffix, es => { s with suffixes := es }

/-- A list with an entry at its end, unless it holds the entry. -/
def pushNew? (es : List String) (e : String) : Option (List String) :=
  if e ∈ es then none else some (es ++ [e])

/-- Adds a rule in stored form at the end of its list; `none` if it is listed. -/
def add? (s : Sections) (kind : Kind) (entry : String) : Option Sections :=
  (pushNew? (s.rules kind) (kind.form entry)).map (s.setRules kind)

/-- Takes a rule out of its list, and says whether the list has another length after that. -/
def takeOut (s : Sections) (kind : Kind) (entry : String) : Bool × Sections :=
  let kept := (s.rules kind).filter (· ≠ kind.form entry)
  (kept.length ≠ (s.rules kind).length, s.setRules kind kept)

/-- The sections without a rule; `none` if that made no list shorter. -/
def remove? (s : Sections) (kind : Kind) (entry : String) : Option Sections :=
  let (shorter, after) := s.takeOut kind entry
  if shorter then some after else none

/-- The sections with other blocklist sources. -/
def setSources (s : Sections) (sources : List String) : Sections := { s with sources }

/-- The stored forms of some entries, each once, in order of first appearance. -/
def seed (kind : Kind) (entries : List String) : List String :=
  entries.foldl (fun es e => (pushNew? es (kind.form e)).getD es) []

end Sections

end DnsGate.Rules
