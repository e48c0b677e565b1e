import DnsGate.Files.Disk
import DnsGate.Text.Cut
import DnsGate.Text.Digits

/-!
Sources of blocklists: web addresses, which start with `http://` or `https://`, and paths of files.
What cannot be read as UTF-8 is replaced, and a byte order mark before a text from the web is
dropped.
-/

namespace DnsGate.Blocklist

/-- What comes back for a request to a web address. -/
inductive WebReply where
  | unreachable
  | answer (status : Nat) (body : Bytes)
deriving DecidableEq, Repr

/-- Where sources are found. -/
structure Library where
  disk : Files.Disk
  web : String → WebReply

/-- Why a source gives no text. -/
inductive SourceError where
  | file (source : String) (cause : Files.FileError)
  | unreachable (source : String)
  | status (source : String) (code : Nat)
deriving DecidableEq, Repr

/-- A web address with the path that it is asked for. -/
def withPath (source : String) : String :=
  match Text.cut? [':', '/', '/'] source.toList with
  | some (_, rest) => if '/' ∈ rest then source else source ++ "/"
  | none => source

def SourceError.message : SourceError → String
  | .file source cause =>
    "Blocklist source error: read error for " ++ source ++ ": " ++ cause.message
  | .unreachable source =>
    "Blocklist source error: fetch error for " ++ source
      ++ ": error sending request for url (" ++ withPath source ++ ")"
  | .status source code =>
    "Blocklist source error: HTTP " ++ Text.decimal code ++ " for " ++ source

/-- Whether a source is a web address. -/
def isWeb (source : String) : Bool :=
  (Text.after? "http://".toList source.toList).isSome ||
    (Text.after? "https://".toList source.toList).isSome

/-- Bytes without the byte order mark that they may start with. -/
def dropMark : Bytes → Bytes
  | 0xEF :: 0xBB :: 0xBF :: bs => bs
  | bs => bs

/-- The text of a source. -/
def fetch (l : Library) (source : String) : Except SourceError String :=
  if isWeb source then
    match l.web source with
    | .unreachable => .error (.unreachable source)
    | .answer status body =>
      if status = 200 then .ok (Utf8.decodeLossy (dropMark body))
      else .error (.status source status)
  else
    match l.disk.read source with
    | .ok bs => .ok (Utf8.decodeLossy bs)
    | .error cause => .error (.file source cause)

end DnsGate.Blocklist
