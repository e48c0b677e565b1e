import DnsGate.Binary.Utf8
import DnsGate.Data.Table

/-!
Files by their paths.  A path whose directory is not there cannot be written, and a directory
cannot be read as a file or take the place of one.  What is written to one path is not seen at
another.
-/

namespace DnsGate.Files

/-! ## Errors -/

/-- Why a file cannot be read, written or renamed. -/
inductive FileError where
  | notFound
  /-- A part of the path is a file. -/
  | notDirectory
  | isDirectory
  /-- The content is not UTF-8. -/
  | notText
deriving DecidableEq, Repr

def FileError.message : FileError → String
  | .notFound => "No such file or directory (os error 2)"
  | .notDirectory => "Not a directory (os error 20)"
  | .isDirectory => "Is a directory (os error 21)"
  | .notText => "stream did not contain valid UTF-8"

/-! ## Disks -/

/-- What stands at a path. -/
inductive Item where
  | file (content : Bytes)
  | directory
deriving DecidableEq, Repr

/-- Paths and what stands there.  A path without a slash stands in a directory that is always
there. -/
structure Disk where
  items : Data.Table Item := .empty

/-- The parts of a path before its slashes, shortest first. -/
def ancestorsOf : (before : List Char) → List Char → List String
  | _, [] => []
  | before, c :: cs =>
    if c = '/' ∧ before ≠ [] then
      String.ofList before.reverse :: ancestorsOf (c :: before) cs
    else ancestorsOf (c :: before) cs

/-- The directories above a path. -/
def ancestors (path : String) : List String := ancestorsOf [] path.toList

namespace Disk

def find? (d : Disk) (path : String) : Option Item := d.items.find? path

/-- Why there is nothing at a path. -/
def absence (d : Disk) (path : String) : FileError :=
  if (ancestors path).any (fun a => match d.find? a with
    | some (.file _) => true
    | _ => false) then .notDirectory else .notFound

/-- The content of a file. -/
def read (d : Disk) (path : String) : Except FileError Bytes :=
  match d.find? path with
  | some (.file content) => .ok content
  | some .directory => .error .isDirectory
  | none => .error (d.absence path)

/-- The content of a file that is text. -/
def readText (d : Disk) (path : String) : Except FileError String := do
  match Utf8.decode? (← d.read path) with
  | some text => .ok text
  | none => .error .notText

/-- Puts a file at a path, over the one that is there. -/
def write (d : Disk) (path : String) (content : Bytes) : Except FileError Disk :=
  match d.find? path with
  | some .directory => .error .isDirectory
  | some (.file _) => .ok ⟨d.items.insert path (.file content)⟩
  | none =>
    if (ancestors path).all (fun a => d.find? a = some .directory) then
      .ok ⟨d.items.insert path (.file content)⟩
    else .error (d.absence path)

/-- Takes away what stands at a path. -/
def remove (d : Disk) (path : String) : Disk := ⟨d.items.erase path⟩

/-- Makes a directory. -/
def makeDirectory (d : Disk) (path : String) : Disk := ⟨d.items.insert path .directory⟩

/-- Moves a file to another path, over the file that is there. -/
def rename (d : Disk) (source target : String) : Except FileError Disk := do
  let content ← d.read source
  (← d.write target content).remove source |> .ok

end Disk

end DnsGate.Files
