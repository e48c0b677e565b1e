import DnsGate.Rules.Form

/-!
The set of rule entries that names are matched against.  Domains and suffixes share one set: an
entry that starts with a dot counts as a suffix.  An operation that may change nothing returns
`none` when it does not.
-/

namespace DnsGate.Rules

/-- Entries in stored form, none of them twice. -/
structure RuleSet where
  entries : List String
  nodup : entries.Nodup
deriving DecidableEq, Repr

namespace RuleSet

/-- The set without entries. -/
def empty : RuleSet := ⟨[], List.nodup_nil⟩

instance : Inhabited RuleSet := ⟨empty⟩

instance : Membership String RuleSet := ⟨fun s e => e ∈ s.entries⟩

instance (e : String) (s : RuleSet) : Decidable (e ∈ s) :=
  inferInstanceAs (Decidable (e ∈ s.entries))

def size (s : RuleSet) : Nat := s.entries.length

def isEmpty (s : RuleSet) : Bool := s.entries.isEmpty

/-! ## Changes -/

/-- The set with one more entry; `none` if it has the entry. -/
def insert? (s : RuleSet) (e : String) : Option RuleSet :=
  if h : e ∈ s.entries then none else some ⟨e :: s.entries, List.nodup_cons.mpr ⟨h, s.nodup⟩⟩

/-- The set without an entry; `none` if it does not have it. -/
def erase? (s : RuleSet) (e : String) : Option RuleSet :=
  if e ∈ s.entries then some ⟨s.entries.erase e, s.nodup.erase e⟩ else none

/-- Adds a domain by its bare name.  The empty name is refused. -/
def addDomain? (s : RuleSet) (name : String) : Option RuleSet :=
  if bare name = "" then none else s.insert? (bare name)

/-- Adds a suffix.  The suffix of a dot alone is refused. -/
def addSuffix? (s : RuleSet) (name : String) : Option RuleSet :=
  if suffixForm name = "." then none else s.insert? (suffixForm name)

/-- Adds an entry of a kind. -/
def add? (s : RuleSet) : Kind → String → Option RuleSet
  | .domain => s.addDomain?
  | .suffix => s.addSuffix?

/-- Takes out an entry given by its bare name. -/
def remove? (s : RuleSet) (name : String) : Option RuleSet := s.erase? (bare name)

/-- Takes out an entry of a kind. -/
def removeKind? (s : RuleSet) (kind : Kind) (entry : String) : Option RuleSet :=
  s.remove? (kind.form entry)

/-- The set of some domains and suffixes. -/
def ofRules (domains suffixes : List String) : RuleSet :=
  let s := domains.foldl (fun s d => (s.addDomain? d).getD s) empty
  suffixes.foldl (fun s d => (s.addSuffix? d).getD s) s

/-! ## Matching -/

/-- The tails that start with a dot, longest first.  The walk ends at the first one that has no
other dot. -/
def dottedTails : List Char → List (List Char)
  | [] => []
  | c :: cs =>
    if c = '.' then if '.' ∈ cs then (c :: cs) :: dottedTails cs else []
    else dottedTails cs

/-- The longest tail with at most one dot. -/
def lastTwoLabels : List Char → List Char
  | [] => []
  | c :: cs => if (c :: cs).count '.' ≤ 1 then c :: cs else lastTwoLabels cs

/-- Whether the name itself is an entry. -/
def containsExact (s : RuleSet) (name : String) : Bool := decide (bare name ∈ s)

/-- Whether an entry of a kind is there. -/
def hasKind (s : RuleSet) (kind : Kind) (entry : String) : Bool := s.containsExact (kind.form entry)

/-- Whether the last two labels of the name, after a dot, are an entry. -/
def containsSuffix (s : RuleSet) (name : String) : Bool :=
  decide (String.ofList ('.' :: lastTwoLabels (bareChars name.toList)) ∈ s)

/-- Whether some suffix of at least two labels of the name is an entry. -/
def matchesSuffix (s : RuleSet) (bareName : List Char) : Bool :=
  (dottedTails ('.' :: bareName)).any (fun tail => decide (String.ofList tail ∈ s))

/-- Whether a rule covers the name: it is an entry, or has an entry as suffix. -/
def covers (s : RuleSet) (name : String) : Bool :=
  s.containsExact name || s.matchesSuffix (bareChars name.toList)

/-- Whether a parent of at least two labels is an entry. -/
def containsParent (s : RuleSet) (bareName : List Char) : Bool :=
  (dottedTails bareName).any (fun tail => decide (String.ofList tail.tail ∈ s))

/-- Whether the name or an ancestor is listed: it, a parent of at least two labels, or a suffix of
it is an entry. -/
def lists (s : RuleSet) (name : String) : Bool :=
  s.containsExact name || s.containsParent (bareChars name.toList) ||
    s.matchesSuffix (bareChars name.toList)

/-! ## Views -/

/-- Strings in the order of their code points. -/
def sorted (es : List String) : List String := es.mergeSort (fun a b => decide (a ≤ b))

/-- Whether an entry counts as a suffix. -/
def isSuffix (e : String) : Bool := e.toList.head? == some '.'

/-- The entries that count as domains, in order. -/
def domains (s : RuleSet) : List String := sorted (s.entries.filter (fun e => !isSuffix e))

/-- The entries that count as suffixes, in order. -/
def suffixes (s : RuleSet) : List String := sorted (s.entries.filter isSuffix)

end RuleSet

end DnsGate.Rules
