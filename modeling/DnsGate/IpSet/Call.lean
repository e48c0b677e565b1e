import DnsGate.Files.Disk
import DnsGate.Net.Address
import DnsGate.Text.Blank
import DnsGate.Text.Digits

/-!
Calls of the tool that keeps sets of addresses in the kernel, and how they fail.  Every call may be
made again without harm.
-/

namespace DnsGate.IpSet

/-! ## Calls -/

/-- The family of the addresses in a set. -/
inductive Family where
  | ipv4
  | ipv6
deriving DecidableEq, Repr

/-- What the tool is asked to do.  Times are in seconds. -/
inductive Call where
  | create (family : Family) (set : String) (timeout : Nat)
  | add (set : String) (ip : Net.Ip) (timeout : Nat)
deriving DecidableEq, Repr

/-- The arguments of a call. -/
def Call.arguments : Call → List String
  | .create .ipv4 set timeout =>
    ["create", set, "hash:ip", "timeout", Text.decimal timeout, "-exist"]
  | .create .ipv6 set timeout =>
    ["create", set, "hash:ip", "family", "inet6", "timeout", Text.decimal timeout, "-exist"]
  | .add set ip timeout => ["add", set, ip.text, "timeout", Text.decimal timeout, "-exist"]

/-! ## Failures -/

/-- How a program ends. -/
inductive Ending where
  | status (code : Nat)
  | signal (number : Nat)
deriving DecidableEq, Repr

/-- The names of the signals from number 1 on. -/
def signalNames : List String :=
  ["SIGHUP", "SIGINT", "SIGQUIT", "SIGILL", "SIGTRAP", "SIGABRT", "SIGBUS", "SIGFPE", "SIGKILL",
    "SIGUSR1", "SIGSEGV", "SIGUSR2", "SIGPIPE", "SIGALRM", "SIGTERM", "SIGSTKFLT", "SIGCHLD",
    "SIGCONT", "SIGSTOP", "SIGTSTP", "SIGTTIN", "SIGTTOU", "SIGURG", "SIGXCPU", "SIGXFSZ",
    "SIGVTALRM", "SIGPROF", "SIGWINCH", "SIGIO", "SIGPWR", "SIGSYS"]

def Ending.text : Ending → String
  | .status code => "exit status: " ++ Text.decimal code
  | .signal number =>
    "signal: " ++ Text.decimal number ++
      match number with
      | 0 => ""
      | n + 1 => (signalNames[n]?.map fun name => " (" ++ name ++ ")").getD ""

/-- Why a call fails. -/
inductive Failure where
  /-- The tool cannot be run. -/
  | notRun (tool : String) (cause : Files.FileError)
  /-- The tool ends without success; `complaint` is what it says about it. -/
  | ended (tool : String) (call : Call) (ending : Ending) (complaint : String)
  | other (text : String)
deriving DecidableEq, Repr

def Failure.message : Failure → String
  | .notRun tool cause => "IP set error: failed to run " ++ tool ++ ": " ++ cause.message
  | .ended tool call ending complaint =>
    "IP set error: " ++ " ".intercalate (tool :: call.arguments) ++ " exited with "
      ++ ending.text ++ ": " ++ Text.trim complaint
  | .other text => "IP set error: " ++ text

/-! ## Tools -/

/-- Whether a call fails, given the calls before it, the last one first. -/
abbrev Tool := List Call → Call → Option Failure

/-- The tool in whose place nothing is done. -/
def Tool.idle : Tool := fun _ _ => none

/-- A program that always ends the same way. -/
def Tool.ending (tool : String) (ending : Ending) (complaint : String) : Tool := fun _ call =>
  if ending = .status 0 then none else some (.ended tool call ending complaint)

/-- A program that is not there. -/
def Tool.missing (tool : String) : Tool := fun _ _ => some (.notRun tool .notFound)

/-- Makes calls in order up to the first failure: the calls after that, the last one first, and
the failure. -/
def callAll (tool : Tool) (made : List Call) : List Call → List Call × Option Failure
  | [] => (made, none)
  | c :: cs =>
    match tool made c with
    | some failure => (c :: made, some failure)
    | none => callAll tool (c :: made) cs

/-- The calls that create the configured sets. -/
def creations (ipv4Set ipv6Set : Option String) (timeout : Nat) : List Call :=
  (ipv4Set.map fun set => .create .ipv4 set timeout).toList ++
    (ipv6Set.map fun set => .create .ipv6 set timeout).toList

end DnsGate.IpSet
