import DnsGate.Text.Blank
import DnsGate.Text.Cut
import DnsGate.Text.Digits

/-!
Forwarders: the name servers that questions are passed on to, as the settings write them.

* `8.8.8.8`, `8.8.8.8:5353`, `[2001:db8::1]:53`, `2001:db8::1`: plain datagrams;
* `udp://host[:number]`, `tcp://host[:number]`;
* `tls://host[:number]`, `dot://host[:number]`: TLS, service 853 unless given;
* `https://host[:number][/path]`, `doh://…`: HTTPS, service 443 unless given;
* `http://host[:number][/path]`: the same exchange without TLS, service 80 unless given.
-/

namespace DnsGate.Forward

/-! ## Schemes -/

/-- How a forwarder is spoken to. -/
inductive Scheme where
  | https
  | tls
  | tcp
  | udp
deriving DecidableEq, Repr

namespace Scheme

/-- The scheme that a lower-case word names. -/
def ofWord? : String → Option Scheme
  | "https" | "doh" => some .https
  | "tls" | "dot" => some .tls
  | "tcp" => some .tcp
  | "udp" => some .udp
  | _ => none

def word : Scheme → String
  | .https => "https"
  | .tls => "tls"
  | .tcp => "tcp"
  | .udp => "udp"

/-- The service number that a forwarder has when it names none. -/
def defaultService : Scheme → Nat
  | .https => 443
  | .tls => 853
  | .tcp | .udp => 53

end Scheme

/-! ## Forwarders -/

/-- A forwarder as read from its text. -/
structure Forwarder where
  scheme : Scheme
  /-- A host name or an address, without brackets. -/
  host : String
  service : Nat
  /-- The path of HTTPS requests. -/
  path : Option String
  /-- HTTPS exchange without TLS. -/
  plaintext : Bool
deriving DecidableEq, Repr

/-- The request path of HTTPS forwarders that name none. -/
def defaultPath : String := "/dns-query"

namespace Forwarder

/-- Why the authority part of a forwarder is refused. -/
inductive AuthorityError where
  | missingHost
  | unterminatedLiteral
  | afterLiteral (tail : String)
  | service (text : String)
deriving DecidableEq, Repr

def AuthorityError.message : AuthorityError → String
  | .missingHost => "missing host"
  | .unterminatedLiteral => "unterminated IPv6 literal"
  | .afterLiteral tail => "unexpected '" ++ tail ++ "' after IPv6 literal"
  | .service text => "invalid port '" ++ text ++ "'"

/-- Why a text names no forwarder. -/
inductive ParseError where
  | empty
  | scheme (word raw : String)
  | authority (raw : String) (cause : AuthorityError)
deriving DecidableEq, Repr

def ParseError.message : ParseError → String
  | .empty => "empty upstream"
  | .scheme word raw => "unknown scheme '" ++ word ++ "' in " ++ raw
  | .authority raw cause => raw ++ ": " ++ cause.message

/-- Reads a service number. -/
def readService (cs : List Char) : Except AuthorityError Nat :=
  match Text.readBounded? 65536 cs with
  | some n => .ok n
  | none => .error (.service (String.ofList cs))

/-- Splits `host[:number]`.  A host in brackets ends at the first closing one; a text with two
colons or more and no bracket is a host by itself. -/
def splitAuthority : List Char → Except AuthorityError (List Char × Option Nat)
  | [] => .error .missingHost
  | '[' :: inner =>
    match Text.cut? [']'] inner with
    | none => .error .unterminatedLiteral
    | some ([], _) => .error .missingHost
    | some (host, []) => .ok (host, none)
    | some (host, ':' :: digits) => do .ok (host, some (← readService digits))
    | some (_, tail) => .error (.afterLiteral (String.ofList tail))
  | cs =>
    if cs.count ':' = 1 then
      match Text.cut? [':'] cs with
      | some (host, digits) =>
        if host.isEmpty then .error .missingHost
        else do .ok (host, some (← readService digits))
      | none => .ok (cs, none)
    else .ok (cs, none)

/-- The scheme word in lower case and what follows it, when a text names a scheme. -/
def schemeWord? (cs : List Char) : Option (String × List Char) :=
  (Text.cut? [':', '/', '/'] cs).map
    fun (word, rest) => (String.ofList (word.map Char.toLower), rest)

/-- The scheme, whether it goes without TLS, and what follows it.  A text without a scheme is
plain datagrams. -/
def splitScheme (raw : List Char) : Except ParseError (Scheme × Bool × List Char) :=
  match schemeWord? raw with
  | none => .ok (.udp, false, raw)
  | some (word, rest) =>
    if word = "http" then .ok (.https, true, rest)
    else match Scheme.ofWord? word with
      | some scheme => .ok (scheme, false, rest)
      | none => .error (.scheme word (String.ofList raw))

/-- The path that requests to an HTTPS forwarder have, given what follows its authority. -/
def requestPath (written : List Char) : String :=
  if written = [] ∨ written = ['/'] then defaultPath else String.ofList written

/-- The forwarder that a text names. -/
def parse (text : String) : Except ParseError Forwarder := do
  let raw := Text.trimChars text.toList
  if raw.isEmpty then throw .empty
  let (scheme, plaintext, rest) ← splitScheme raw
  let (host, service) ←
    (splitAuthority (rest.takeWhile (· ≠ '/'))).mapError (.authority (String.ofList raw))
  return {
    scheme
    host := String.ofList host
    service := service.getD (if plaintext then 80 else scheme.defaultService)
    path := if scheme = .https then some (requestPath (rest.dropWhile (· ≠ '/'))) else none
    plaintext }

/-! ## Text -/

/-- The host and the service number, a host with colons in brackets. -/
def authority (f : Forwarder) : String :=
  if ':' ∈ f.host.toList then "[" ++ f.host ++ "]:" ++ Text.decimal f.service
  else f.host ++ ":" ++ Text.decimal f.service

/-- Where HTTPS requests go. -/
def url (f : Forwarder) : String :=
  (if f.plaintext then "http" else "https") ++ "://" ++ f.authority ++ f.path.getD defaultPath

/-- The canonical text of a forwarder. -/
def text (f : Forwarder) : String :=
  match f.scheme with
  | .https => f.url
  | s => s.word ++ "://" ++ f.authority

end Forwarder

end DnsGate.Forward
