import Mathlib
import DnsGate.Blocklist.Manager
import DnsGate.Proofs.PlainText
import DnsGate.Proofs.RuleStores

/-!
Which names a set of rule entries lists, and which entries a generation of the blocklist has.  An
entry that is a domain lists the names that it is the whole of, and those that it ends after a dot
if it has a dot itself (`lists_iff`); the entries of a generation are the bare names of the hosts in
the texts that could be read (`Generation.mem_build`).
-/

namespace DnsGate.Rules.RuleSet

variable {s : RuleSet} {name : String} {cs tail : List Char}

/-! ## Matching -/

theorem dottedTails_of_not_mem (h : '.' ∉ cs) : dottedTails cs = [] := by
  induction cs with
  | nil => rfl
  | cons c cs ih =>
    obtain ⟨hc, hcs⟩ := not_or.mp (mt List.mem_cons.mpr h)
    rw [dottedTails, if_neg (Ne.symm hc), ih hcs]

/-- The walk finds every tail that starts with a dot and has another one after it. -/
theorem mem_dottedTails : tail ∈ dottedTails cs ↔
    ∃ pre rest, cs = pre ++ '.' :: rest ∧ '.' ∈ rest ∧ tail = '.' :: rest := by
  induction cs with
  | nil => simp [dottedTails]
  | cons c cs ih =>
    have hcut : (∃ pre rest, c :: cs = pre ++ '.' :: rest ∧ '.' ∈ rest ∧ tail = '.' :: rest) ↔
        (c = '.' ∧ '.' ∈ cs ∧ tail = '.' :: cs) ∨ tail ∈ dottedTails cs := by
      rw [ih]
      constructor
      · rintro ⟨_ | ⟨d, pre⟩, rest, hcs, hdot, htail⟩
        · obtain ⟨rfl, rfl⟩ := List.cons.inj hcs
          exact Or.inl ⟨rfl, hdot, htail⟩
        · exact Or.inr ⟨pre, rest, (List.cons.inj hcs).2, hdot, htail⟩
      · rintro (⟨rfl, hdot, htail⟩ | ⟨pre, rest, rfl, hdot, htail⟩)
        · exact ⟨[], cs, rfl, hdot, htail⟩
        · exact ⟨c :: pre, rest, rfl, hdot, htail⟩
    rw [hcut, dottedTails]
    split
    · rename_i hc
      split
      · rename_i hdot
        simp [hc, hdot]
      · -- the walk ends here, and there is no dot left to walk on to
        rename_i hdot
        simp [hdot, dottedTails_of_not_mem hdot]
    · rename_i hc
      exact (or_iff_right fun h => hc h.1).symm

theorem matchesSuffix_iff : s.matchesSuffix cs = true ↔
    ∃ e ∈ s, ∃ rest, e.toList = '.' :: rest ∧ '.' ∈ rest ∧ e.toList <:+ '.' :: cs := by
  rw [matchesSuffix, List.any_eq_true]
  constructor
  · rintro ⟨tail, htail, hmem⟩
    obtain ⟨pre, rest, hcs, hdot, rfl⟩ := mem_dottedTails.mp htail
    refine ⟨_, of_decide_eq_true hmem, rest, String.toList_ofList, hdot, pre, ?_⟩
    rw [String.toList_ofList, hcs]
  · rintro ⟨e, he, rest, hrest, hdot, pre, hpre⟩
    rw [hrest] at hpre
    refine ⟨_, mem_dottedTails.mpr ⟨pre, rest, hpre.symm, hdot, rfl⟩, decide_eq_true ?_⟩
    rwa [← hrest, String.ofList_toList]

theorem containsParent_iff : s.containsParent cs = true ↔
    ∃ e ∈ s, '.' ∈ e.toList ∧ ∃ pre, cs = pre ++ '.' :: e.toList := by
  rw [containsParent, List.any_eq_true]
  constructor
  · rintro ⟨tail, htail, hmem⟩
    obtain ⟨pre, rest, hcs, hdot, rfl⟩ := mem_dottedTails.mp htail
    refine ⟨_, of_decide_eq_true hmem, ?_, pre, ?_⟩
    · rwa [List.tail_cons, String.toList_ofList]
    · rwa [List.tail_cons, String.toList_ofList]
  · rintro ⟨e, he, hdot, pre, hpre⟩
    refine ⟨_, mem_dottedTails.mpr ⟨pre, e.toList, hpre, hdot, rfl⟩, decide_eq_true ?_⟩
    rwa [List.tail_cons, String.ofList_toList]

/-- A set without suffixes lists a name if an entry is the whole of its bare form, or ends it after
a dot and has a dot itself. -/
theorem lists_iff (hs : ∀ e ∈ s, isSuffix e = false) : s.lists name = true ↔
    ∃ e ∈ s, bareChars name.toList = e.toList ∨
      '.' ∈ e.toList ∧ ∃ pre, bareChars name.toList = pre ++ '.' :: e.toList := by
  have hexact : s.containsExact name = true ↔ ∃ e ∈ s, bareChars name.toList = e.toList := by
    rw [containsExact, decide_eq_true_iff]
    constructor
    · intro h
      exact ⟨bare name, h, (toList_bare name).symm⟩
    · rintro ⟨e, he, heq⟩
      rwa [bare, heq, String.ofList_toList]
  have hsuffix : s.matchesSuffix (bareChars name.toList) = false := by
    rw [Bool.eq_false_iff, ne_eq, matchesSuffix_iff]
    rintro ⟨e, he, rest, hrest, -, -⟩
    have hdomain := hs e he
    rw [isSuffix, hrest] at hdomain
    cases hdomain
  rw [lists, hsuffix, Bool.or_false, Bool.or_eq_true, hexact, containsParent_iff]
  simp only [and_or_left, exists_or]

end DnsGate.Rules.RuleSet

namespace DnsGate.Blocklist

/-! ## Generations -/

/-- The hosts that sources list, in order. -/
def listed (read : String → Except SourceError String) (sources : List String) : List String :=
  sources.flatMap fun source =>
    match read source with
    | .ok text => hosts text
    | .error _ => []

namespace Generation

variable {g : Generation} {read : String → Except SourceError String}

theorem rules_foldl_addHost (hs : List String) : (hs.foldl addHost g).rules =
    hs.foldl (fun s e => (s.add? .domain e).getD s) g.rules := by
  induction hs generalizing g with
  | nil => rfl
  | cons h hs ih =>
    rw [List.foldl_cons, ih]
    rfl

theorem foldl_addSource (sources : List String) :
    sources.foldl (addSource read) g = (listed read sources).foldl addHost g := by
  induction sources generalizing g with
  | nil => rfl
  | cons source sources ih =>
    have hsource : addSource read g source = (listed read [source]).foldl addHost g := by
      rw [addSource, listed, List.flatMap_singleton]
      cases read source with
      | ok text => rfl
      | error e => rfl
    have hcons : listed read (source :: sources) = listed read [source] ++ listed read sources := by
      rw [listed, ← List.singleton_append, List.flatMap_append]
      rfl
    rw [List.foldl_cons, ih, hsource, hcons, List.foldl_append]

/-- The entries of a generation are the bare names that its sources list. -/
theorem mem_build {now : Int} {sources : List String} {x : String} :
    x ∈ (build read now sources).rules ↔
      ∃ host ∈ listed read sources, x = Rules.bare host ∧ x ≠ "" := by
  have hempty : x ∉ Rules.RuleSet.empty := List.not_mem_nil
  show x ∈ (sources.foldl (addSource read) {}).rules ↔ _
  rw [foldl_addSource, rules_foldl_addHost, Rules.RuleSet.mem_foldl_add?]
  exact or_iff_left hempty

end Generation

/-! ## One host -/

section Line

open Text (fields isBlank trimChars)

/-- The host of a line can be told from its fields. -/
theorem hostChars?_eq (line : List Char) :
    hostChars? line =
      match fields line with
      | [] => none
      | f :: fs => if f.head? = some '#' then none else fs.head? := by
  rw [hostChars?, ← Text.fields_trimChars line]
  cases htrim : trimChars line with
  | nil => rfl
  | cons c cs =>
    have hc : isBlank c = false := Text.head?_trimChars line c (by rw [htrim]; rfl)
    obtain ⟨f, fs, hfields⟩ := Text.fields_cons hc cs
    simp [hfields, List.head?_eq_getElem?]

/-- The line of a hosts file that gives an address to a host. -/
def hostLine (host : String) : String := "0.0.0.0 " ++ host

/-- A hosts file of one line lists the host on it. -/
theorem hosts_hostLine {host : String} (hne : host.toList ≠ [])
    (hblank : ∀ c ∈ host.toList, isBlank c = false) : hosts (hostLine host) = [host] := by
  have hchars : (hostLine host).toList = "0.0.0.0".toList ++ ' ' :: host.toList := by
    simp [hostLine]
  have haddress : ∀ c ∈ "0.0.0.0".toList, isBlank c = false := by
    have hall : "0.0.0.0".toList.all (fun c => !isBlank c) = true := by decide
    exact fun c hc => Bool.eq_false_of_not_eq_true' (List.all_eq_true.mp hall c hc)
  have hline : Text.lines (hostLine host) = [hostLine host] := by
    have hnewline : '\n' ∉ (hostLine host).toList := by
      rw [hchars, List.mem_append, List.mem_cons]
      rintro (h | h | h)
      · exact absurd (haddress _ h) (by decide)
      · exact absurd h (by decide)
      · exact absurd (hblank _ h) (by decide)
    have hsome : [].reverse ++ (hostLine host).toList ≠ [] := by simp [hchars]
    rw [Text.lines, Text.lineChars_eq_singleton hnewline hsome]
    simp
  have hfields : fields (hostLine host).toList = ["0.0.0.0".toList, host.toList] := by
    rw [hchars, Text.fields_append (by decide), Text.fields_of_not_blank (by decide) haddress,
      Text.fields_of_not_blank hne hblank, List.singleton_append]
  have hhost : hostOfLine? (hostLine host) = some host := by
    rw [hostOfLine?, hostChars?_eq, hfields]
    simp
  rw [hosts, hline]
  simp [hhost]

end Line

end DnsGate.Blocklist
