import DnsGate.Rules.Sections
import DnsGate.Serve.Live

/-!
Editing rules while the server runs.  Every entry is added or removed in the live rules first; only
if that changes them does the list of the settings change with them.
-/

namespace DnsGate.Admin

/-- What the management interface works on: what is live, and the sections that are saved. -/
structure State where
  live : Serve.Live
  sections : Rules.Sections
deriving DecidableEq, Repr

/-- Whether rules are added or removed. -/
inductive Edit where
  | add
  | remove
deriving DecidableEq, Repr

/-- An entry that changed nothing: one to add that was there, or one to remove that was not. -/
structure Skip where
  edit : Edit
  kind : Rules.Kind
  entry : String
deriving DecidableEq, Repr

def Skip.message (s : Skip) : String :=
  s.kind.word ++ " " ++ s.entry ++
    match s.edit with
    | .add => " exist"
    | .remove => " not found"

/-- What came of an edit: the entries that changed nothing, and how many changed something. -/
structure Report where
  skipped : List Skip := []
  changed : Nat := 0
deriving DecidableEq, Repr

/-- The text of a report: a line for every skipped entry, then `ok`. -/
def Report.text (r : Report) : String :=
  String.join (r.skipped.map fun s => s.message ++ "\n") ++ "ok"

/-- The live rules after an entry was edited, if that changes them. -/
def editLive? (e : Edit) (kind : Rules.Kind) (entry : String) (rules : Rules.RuleSet) :
    Option Rules.RuleSet :=
  match e with
  | .add => rules.add? kind entry
  | .remove => rules.removeKind? kind entry

/-- The sections after an entry was edited, if that changes them. -/
def editSections? (e : Edit) (kind : Rules.Kind) (entry : String) (sections : Rules.Sections) :
    Option Rules.Sections :=
  match e with
  | .add => sections.add? kind entry
  | .remove => sections.remove? kind entry

/-- Edits one entry. -/
def editEntry (e : Edit) (kind : Rules.Kind) : Report × State → String → Report × State
  | (report, s), entry =>
    match editLive? e kind entry s.live.rules with
    | none => ({ report with skipped := report.skipped ++ [⟨e, kind, entry⟩] }, s)
    | some rules =>
      ({ report with changed := report.changed + 1 },
        { live := { s.live with rules }
          sections := (editSections? e kind entry s.sections).getD s.sections })

/-- Edits entries in order. -/
def editRules (e : Edit) (kind : Rules.Kind) (entries : List String) (s : State) :
    Report × State :=
  entries.foldl (editEntry e kind) ({}, s)

end DnsGate.Admin
