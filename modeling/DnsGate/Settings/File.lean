import DnsGate.Binary.Width
import DnsGate.Settings.Check
import DnsGate.Settings.Decode
import DnsGate.Settings.Render
import DnsGate.Toml.Edit
import DnsGate.Toml.Printer

/-!
The settings file.  It is loaded when the program starts.  When it is saved, the three lists of the
editable sections are replaced in it and the rest stays as it is; a file that is not there is
written from the settings of the start.  The new content takes the place of the old one in one
step.
-/

namespace DnsGate.Settings

open Files (Disk)

/-! ## Loading -/

/-- The settings of a file, or the defaults if nothing stands at its path. -/
def load (disk : Disk) (path : String) (o : Overrides) : Except Failure Settings :=
  match disk.find? path with
  | none => .ok (Settings.override {} o)
  | some _ =>
    match disk.readText path with
    | .error cause => .error (.read path cause)
    | .ok text =>
      match Settings.parse? text with
      | none => .error .parse
      | some s => .ok (s.override o)

/-- Loads settings and checks them. -/
def loadChecked (disk : Disk) (path : String) (o : Overrides) : Except Failure Settings := do
  let s ← load disk path o
  match s.check with
  | .ok () => .ok s
  | .error cause => .error (.invalid cause)

/-! ## Editing -/

/-- Puts a list into a table of a document. -/
def putList (table key : String) (texts : List String) (d : Toml.Document) :
    Except Failure Toml.Document :=
  match d.putTexts? table key texts with
  | some d => .ok d
  | none => .error (.edit table)

/-- The content of a file with its lists replaced.  No integer in it may exceed 64 bits. -/
def mergeSections (content : String) (s : Rules.Sections) : Except Failure String :=
  match (Toml.Document.parse? content).filter (·.integersAll Width.fits64) with
  | none => .error .parse
  | some d => do
    let d ← putList "rules" "domains" s.domains d
    let d ← putList "rules" "suffixes" s.suffixes d
    let d ← putList "blocklist" "urls" s.sources d
    .ok d.text

/-! ## Saving -/

/-- Where settings are saved, and the settings of the start. -/
structure Keeper where
  path : String
  base : Settings

namespace Keeper

/-- The path of the file that takes the place of the settings file. -/
def temporary (k : Keeper) : String := k.path ++ ".tmp"

/-- The new content of the settings file. -/
def content (k : Keeper) (disk : Disk) (s : Rules.Sections) : Except Failure String :=
  match disk.readText k.path with
  | .ok old => mergeSections old s
  | .error .notFound => .ok (k.base.withSections s).render
  | .error cause => .error (.read k.path cause)

/-- Writes content beside the settings file and moves it there; the disk after it, even if that
fails. -/
def replace (k : Keeper) (disk : Disk) (content : String) : Except Failure Unit × Disk :=
  match disk.write k.temporary (Utf8.encode content) with
  | .error cause => (.error (.write k.temporary cause), disk)
  | .ok written =>
    match written.rename k.temporary k.path with
    | .error cause => (.error (.write k.path cause), written)
    | .ok moved => (.ok (), moved)

/-- Saves sections: the disk after it, even if that fails. -/
def save (k : Keeper) (disk : Disk) (s : Rules.Sections) : Except Failure Unit × Disk :=
  match k.content disk s with
  | .error e => (.error e, disk)
  | .ok content => k.replace disk content

end Keeper

end DnsGate.Settings
