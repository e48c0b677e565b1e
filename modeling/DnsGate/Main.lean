import DnsGate.Binary.Hex
import DnsGate.Program.Launch
import DnsGate.Serve.Clocked

/-!
The program.  It reads requests as lines of hexadecimal digits and writes the replies to them in the
same form, until the input ends.  No forwarder and no tool can be reached from here.
-/

namespace DnsGate.Main

/-! ## Files -/

/-- What stands at a path. -/
def readItem (path : String) : IO (Option Files.Item) := do
  try
    let content ← IO.FS.readBinFile path
    return some (.file content.toList)
  catch
    | .noFileOrDirectory .. => return none
    | _ => return some .directory

/-- The disk with what stands at some paths. -/
def readDisk (paths : List String) : IO Files.Disk :=
  paths.foldlM (fun disk path => do
    match ← readItem path with
    | some item => return ⟨disk.items.insert path item⟩
    | none => return disk) {}

/-- Writes a file of the disk. -/
def writeBack (disk : Files.Disk) (path : String) : IO Unit := do
  match disk.read path with
  | .ok content => IO.FS.writeBinFile path (ByteArray.mk content.toArray)
  | .error _ => return

/-! ## Requests -/

/-- The time in seconds; it runs from the start of the program. -/
def readClock : IO UInt64 := do
  return UInt64.ofNat ((← IO.monoMsNow) / 1000)

/-- Answers requests until the input ends, or until an instant cannot be computed. -/
partial def answerLines (p : Program.Plan) (s : Serve.Surroundings) (input : IO.FS.Stream)
    (st : Program.State) : IO (Except Forward.Overflow Program.State) := do
  let line ← input.getLine
  if line.isEmpty then return .ok st
  let request := (Hex.decode? (Text.trim line)).getD []
  let delivery := Serve.Clocked.deliver p.wiring s (← readClock) Serve.datagramLimit request
  match delivery.run (st.serve, { time := ← IO.monoMsNow }) with
  | .error overflow => return .error overflow
  | .ok (reply, serve, _) =>
    IO.println ((reply.map Hex.encode).getD "")
    answerLines p s input { st with serve }

/-! ## Runs -/

/-- Runs with the settings at a path. -/
def run (path : String) (o : Settings.Overrides) : IO UInt32 := do
  let host : Program.Host := {
    disk := ← readDisk [path]
    tool := .missing "ipset"
    binds := fun _ => true }
  match (Program.start host path o).result with
  | .error e =>
    IO.eprintln e.report
    return 1
  | .ok (plan, st) =>
    let files ← readDisk (st.sections.sources.filter fun source => !Blocklist.isWeb source)
    let (_, fed) := { st with disk := files }.refresh (fun _ => .unreachable) 0
    let surroundings : Serve.Surroundings := ⟨.unreachable, host.tool⟩
    match ← answerLines plan surroundings (← IO.getStdin) { fed with disk := st.disk } with
    | .error overflow =>
      -- the program ends at once: nothing is saved
      IO.eprintln overflow.message
      return 134
    | .ok st =>
      writeBack (st.finish plan) path
      return 0

/-- Runs a command line. -/
def runCommand (arguments : List String) : IO UInt32 := do
  match Program.Command.of arguments (← IO.getEnv "DNSBOX_CONFIG") with
  | .error e =>
    IO.eprintln ("error: " ++ e.message)
    return 2
  | .ok .help =>
    IO.println Program.helpText
    return 0
  | .ok .version =>
    IO.println Program.versionText
    return 0
  | .ok (.run path o) => run path o

end DnsGate.Main

def main (args : List String) : IO UInt32 := DnsGate.Main.runCommand args
