import DnsGate.Files.Disk

/-!
What can be wrong with settings and their file.
-/

namespace DnsGate.Settings

/-- Why settings are refused. -/
inductive Fault where
  | noListen
  | listen (endpoint : String)
  | api (endpoint : String)
  | noTime
  | noServers
deriving DecidableEq, Repr

def Fault.message : Fault → String
  | .noListen => "server.listen must not be empty"
  | .listen endpoint => "invalid listen address '" ++ endpoint ++ "': invalid socket address syntax"
  | .api endpoint => "invalid api_listen '" ++ endpoint ++ "': invalid socket address syntax"
  | .noTime => "dns.timeout_secs must be greater than zero"
  | .noServers => "dns.upstream_servers must not be empty"

/-- Why settings cannot be loaded or saved. -/
inductive Failure where
  | read (path : String) (cause : Files.FileError)
  | parse
  | invalid (cause : Fault)
  | write (path : String) (cause : Files.FileError)
  /-- A part of the file that should be a table is something else. -/
  | edit (table : String)
deriving DecidableEq, Repr

/-- The message of an error, without the place in the file where reading stopped. -/
def Failure.message : Failure → String
  | .read path cause => "Failed to read config file: " ++ path ++ ": " ++ cause.message
  | .parse => "Failed to parse config file"
  | .invalid cause => "Invalid configuration: " ++ cause.message
  | .write path cause => "Failed to write config file: " ++ path ++ ": " ++ cause.message
  | .edit table => "Failed to edit config document: '" ++ table ++ "' is not a table"

/-- The text of a failure to save settings. -/
def saveFailure (cause : String) : String := "Configuration error: " ++ cause

end DnsGate.Settings
