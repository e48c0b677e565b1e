/-!
Media types of request bodies, as in `application/json; charset=utf-8`.
-/

namespace DnsGate.Api

/-- The characters of the words in a media type. -/
def isTokenChar (c : Char) : Bool := c.isAlphanum || c ∈ "!#$%&'*+-.^_`|~".toList

/-- The characters between the quotes of a parameter. -/
def isQuotedChar (c : Char) : Bool := c.toNat ≥ 0x20 && c.toNat != 0x7F && c != '"'

/-- Where reading the parameters of a media type stands. -/
inductive ParameterMode where
  /-- Before the name of a parameter. -/
  | start
  | name
  /-- Before the value. -/
  | equals
  | value
  | quoted (empty : Bool)
  /-- After a quoted value. -/
  | after
deriving DecidableEq, Repr

/-- Whether a text after the first semicolon of a media type writes parameters. -/
def areParameters : ParameterMode → List Char → Bool
  | .start, [] => true
  | .name, [] => false
  | .equals, [] => true
  | .value, [] => true
  | .quoted _, [] => false
  | .after, [] => true
  | .start, c :: cs =>
    if c = ' ' then areParameters .start cs else isTokenChar c && areParameters .name cs
  | .name, c :: cs =>
    if c = '=' then areParameters .equals cs else isTokenChar c && areParameters .name cs
  | .equals, c :: cs =>
    if c = '"' then areParameters (.quoted true) cs else isTokenChar c && areParameters .value cs
  | .value, c :: cs =>
    if c = ';' then areParameters .start cs else isTokenChar c && areParameters .value cs
  | .quoted empty, c :: cs =>
    if c = '"' then !empty && areParameters .after cs
    else isQuotedChar c && areParameters (.quoted false) cs
  | .after, c :: cs =>
    if c = ';' then areParameters .start cs else c == ' ' && areParameters .after cs

/-- A subtype without its suffix, and the suffix: what comes after its last plus sign, unless that
is its first character. -/
def splitSuffix (sub : List Char) : List Char × Option (List Char) :=
  let suffix := (sub.reverse.takeWhile (· ≠ '+')).reverse
  if suffix.length + 1 < sub.length then
    (sub.take (sub.length - (suffix.length + 1)), some suffix)
  else (sub, none)

/-- Whether a media type says that a body is JSON: its main type is `application`, and its subtype
or the suffix of that is `json`. -/
def isJsonType (mediaType : String) : Bool :=
  let lower := mediaType.toList.map Char.toLower
  let (main, rest) := lower.span (· ≠ '/')
  let (sub, parameters) := rest.tail.span (· ≠ ';')
  let (bare, suffix) := splitSuffix sub
  main == "application".toList && sub.all isTokenChar && areParameters .start parameters.tail &&
    (bare == "json".toList || suffix == some "json".toList)

end DnsGate.Api
