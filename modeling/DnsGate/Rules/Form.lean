import DnsGate.Text.Blank
import DnsGate.Text.Cut

/-!
Stored forms of names and rule entries.  `bare` takes off one trailing root dot and folds ASCII
case; a domain entry is also trimmed, and a suffix entry starts with a dot.
-/

namespace DnsGate.Rules

/-! ## Names -/

/-- A name without one trailing dot and in ASCII lower case, on characters. -/
def bareChars (cs : List Char) : List Char := (Text.dropLastOne '.' cs).map Char.toLower

/-- A name without one trailing dot and in ASCII lower case. -/
def bare (s : String) : String := String.ofList (bareChars s.toList)

/-- The stored form of a name: trimmed, then bare. -/
def nameForm (s : String) : String := bare (Text.trim s)

/-- Puts a dot in front unless there is one. -/
def withDot : List Char → List Char
  | '.' :: cs => '.' :: cs
  | cs => '.' :: cs

/-- The stored form of a suffix: that of a name, with a dot in front. -/
def suffixForm (s : String) : String := String.ofList (withDot (nameForm s).toList)

@[simp] theorem toList_bare (s : String) : (bare s).toList = bareChars s.toList := by
  simp [bare]

@[simp] theorem toList_nameForm (s : String) :
    (nameForm s).toList = bareChars (Text.trimChars s.toList) := by
  simp [nameForm]

@[simp] theorem toList_suffixForm (s : String) :
    (suffixForm s).toList = withDot (bareChars (Text.trimChars s.toList)) := by
  simp [suffixForm]

/-! ## Kinds of rules -/

/-- What a rule covers: one domain, or all names under a suffix. -/
inductive Kind where
  | domain
  | suffix
deriving DecidableEq, Repr

/-- The word for a kind in messages. -/
def Kind.word : Kind → String
  | .domain => "domain"
  | .suffix => "suffix"

/-- The stored form of an entry of this kind. -/
def Kind.form : Kind → String → String
  | .domain => nameForm
  | .suffix => suffixForm

end DnsGate.Rules
