import DnsGate.Toml.Quoted

/-!
How a text is quoted when it is written.  The plainest form that needs no escapes is taken: basic,
literal, then either of them in triple quotes.  If none will do, basic text is written with
escapes.
-/

namespace DnsGate.Toml

/-! ## Forms -/

/-- The four forms of quoted text. -/
inductive Form where
  | basic
  | literal
  | tripleBasic
  | tripleLiteral
deriving DecidableEq, Repr

/-- Whether a character can only be written as an escape. -/
def needsEscape (c : Char) : Bool := !isPlain c && c != '\n'

/-- The length of the longest run of a character, given how long the run is that leads up to the
text. -/
def longestRun (c : Char) : Nat → List Char → Nat
  | run, [] => run
  | run, d :: cs => if d = c then longestRun c (run + 1) cs else max run (longestRun c 0 cs)

/-- The form that a text is written in. -/
def Form.of (cs : List Char) : Form :=
  let lines := '\n' ∈ cs
  let safe := !cs.any needsEscape
  if safe ∧ '\\' ∉ cs ∧ '"' ∉ cs ∧ ¬lines then .basic
  else if safe ∧ '\'' ∉ cs ∧ ¬lines then .literal
  else if safe ∧ '\\' ∉ cs ∧ longestRun '"' 0 cs ≤ 2 then .tripleBasic
  else if safe ∧ longestRun '\'' 0 cs ≤ 2 then .tripleLiteral
  else if lines then .tripleBasic
  else .basic

/-! ## Text -/

/-- Four hexadecimal digits. -/
def fourDigits (n : Nat) : List Char :=
  [n / 4096 % 16, n / 256 % 16, n / 16 % 16, n % 16].map fun d => (Nat.digitChar d).toUpper

/-- A character of basic text. -/
def escapeChar (triple : Bool) (c : Char) : List Char :=
  match c with
  | '\x08' => ['\\', 'b']
  | '\t' => ['\\', 't']
  | '\n' => if triple then ['\n'] else ['\\', 'n']
  | '\x0c' => ['\\', 'f']
  | '\r' => ['\\', 'r']
  | '"' => ['\\', '"']
  | '\\' => ['\\', '\\']
  | c => if isPlain c then [c] else '\\' :: 'u' :: fourDigits c.toNat

/-- Basic text without its quotes.  Within triple quotes only every third quote of a run is
escaped; `run` counts the quotes right before the text. -/
def escapeAll (triple : Bool) : (run : Nat) → List Char → List Char
  | _, [] => []
  | run, c :: cs =>
    if triple ∧ c = '"' ∧ run < 2 then c :: escapeAll triple (run + 1) cs
    else escapeChar triple c ++ escapeAll triple 0 cs

/-- A text between quotes of a form.  After three opening quotes a text of several lines starts on
a line of its own. -/
def quoteIn (form : Form) (cs : List Char) : List Char :=
  let first := if '\n' ∈ cs then ['\n'] else []
  match form with
  | .basic => '"' :: escapeAll false 0 cs ++ ['"']
  | .literal => '\'' :: cs ++ ['\'']
  | .tripleBasic => ['"', '"', '"'] ++ first ++ escapeAll true 0 cs ++ ['"', '"', '"']
  | .tripleLiteral => ['\'', '\'', '\''] ++ first ++ cs ++ ['\'', '\'', '\'']

/-- A text as it is written. -/
def quote (s : String) : List Char := quoteIn (.of s.toList) s.toList

end DnsGate.Toml
