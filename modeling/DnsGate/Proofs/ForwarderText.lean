import Mathlib
import DnsGate.Forward.Forwarder
import DnsGate.Proofs.PlainText

/-!
Forwarders and their texts.  What is read from a text is well formed (`wellFormed_of_parse`), and
the canonical text of a well-formed forwarder is read back as it is, unless a bracket stands in its
host (`parse_text`).  Main statement: whatever spelling a forwarder has in the settings, its
canonical text names the same one (`text_round_trips`).
-/

namespace DnsGate.Forward.Forwarder

open Text (trimChars isBlank notMem_toDigits)

variable {f : Forwarder}

/-! ## Service numbers -/

theorem readService_toDigits {n : Nat} (h : n < 65536) :
    readService (Nat.toDigits 10 n) = .ok n := by
  have hbounded : Text.readBounded? 65536 (Nat.toDigits 10 n) = some n := by
    unfold Text.readBounded?
    split
    · rename_i rest hplus
      exact absurd (hplus ▸ List.mem_cons_self) (notMem_toDigits (c := '+') (by decide) n)
    · simp [Text.readNat?_toDigits, h]
  rw [readService, hbounded]

theorem lt_of_readService {cs : List Char} {n : Nat} (h : readService cs = .ok n) : n < 65536 := by
  unfold readService at h
  split at h
  · rename_i k hk
    cases h
    exact of_decide_eq_true (Option.filter_eq_some_iff.mp hk).2
  · cases h

/-! ## Authorities -/

theorem toList_authority (f : Forwarder) : f.authority.toList =
    if ':' ∈ f.host.toList then '[' :: (f.host.toList ++ ']' :: ':' :: Nat.toDigits 10 f.service)
    else f.host.toList ++ ':' :: Nat.toDigits 10 f.service := by
  unfold authority Text.decimal
  split <;> simp

/-- What comes of an authority whose host is followed by a number. -/
theorem numbered_ok {host host' digits : List Char} {service : Option Nat}
    (h : (do .ok (host', some (← readService digits)) : Except AuthorityError _) =
      .ok (host, service)) : host' = host ∧ ∀ n ∈ service, n < 65536 := by
  cases hread : readService digits with
  | error cause =>
    rw [hread] at h
    cases h
  | ok n =>
    rw [hread] at h
    cases h
    refine ⟨rfl, fun k hk => ?_⟩
    cases hk
    exact lt_of_readService hread

/-- A host is a part of the authority, and not empty. -/
theorem splitAuthority_ok {cs host : List Char} {service : Option Nat}
    (h : splitAuthority cs = .ok (host, service)) :
    host ≠ [] ∧ host.Sublist cs ∧ ∀ n ∈ service, n < 65536 := by
  have hfront : ∀ {c host tail cs}, Text.cut? [c] cs = some (host, tail) → host.Sublist cs := by
    intro c host tail cs hcut
    rw [Text.eq_append_of_cut? hcut, List.append_assoc]
    exact List.sublist_append_left _ _
  unfold splitAuthority at h
  split at h
  · cases h
  · -- a literal in brackets
    split at h
    · cases h
    · cases h
    · rename_i host' hne hcut
      cases h
      exact ⟨hne, (hfront hcut).cons _, fun _ hn => nomatch hn⟩
    · rename_i host' digits hne hcut
      obtain ⟨rfl, hlt⟩ := numbered_ok h
      exact ⟨hne, (hfront hcut).cons _, hlt⟩
    · cases h
  · rename_i hsome _
    split at h
    · split at h
      · rename_i host' digits hcut
        split at h
        · cases h
        · rename_i hne
          obtain ⟨rfl, hlt⟩ := numbered_ok h
          exact ⟨mt List.isEmpty_iff.mpr hne, hfront hcut, hlt⟩
      · cases h
        exact ⟨hsome, List.Sublist.refl _, fun _ hn => nomatch hn⟩
    · cases h
      exact ⟨hsome, List.Sublist.refl _, fun _ hn => nomatch hn⟩

theorem splitAuthority_bracketed {host : List Char} {n : Nat} (hne : host ≠ [])
    (hclose : ']' ∉ host) (hlt : n < 65536) :
    splitAuthority ('[' :: (host ++ ']' :: ':' :: Nat.toDigits 10 n)) = .ok (host, some n) := by
  have hcut : Text.cut? [']'] (host ++ ']' :: ':' :: Nat.toDigits 10 n) =
      some (host, ':' :: Nat.toDigits 10 n) := Text.cut?_append _ hclose
  unfold splitAuthority
  simp only [hcut]
  rw [readService_toDigits hlt]
  rfl

theorem splitAuthority_plain {host : List Char} {n : Nat} (hne : host ≠ []) (hopen : '[' ∉ host)
    (hcolon : ':' ∉ host) (hlt : n < 65536) :
    splitAuthority (host ++ ':' :: Nat.toDigits 10 n) = .ok (host, some n) := by
  have hcut : Text.cut? [':'] (host ++ ':' :: Nat.toDigits 10 n) =
      some (host, Nat.toDigits 10 n) := Text.cut?_append _ hcolon
  have hcount : (host ++ ':' :: Nat.toDigits 10 n).count ':' = 1 := by
    rw [List.count_append, List.count_cons_self, List.count_eq_zero_of_not_mem hcolon,
      List.count_eq_zero_of_not_mem (notMem_toDigits (by decide) n)]
  unfold splitAuthority
  split
  · rename_i hnil
    exact absurd (List.append_eq_nil_iff.mp hnil).1 hne
  · rename_i inner hbracket
    obtain ⟨c, cs, rfl⟩ := List.exists_cons_of_ne_nil hne
    rw [List.cons_append] at hbracket
    exact absurd ((List.cons.inj hbracket).1 ▸ List.mem_cons_self) hopen
  · simp only [hcount, if_true, hcut]
    rw [if_neg (mt List.isEmpty_iff.mp hne), readService_toDigits hlt]
    rfl

/-- The canonical authority is taken apart into host and number. -/
theorem splitAuthority_authority (hne : f.host ≠ "") (hopen : '[' ∉ f.host.toList)
    (hclose : ']' ∉ f.host.toList) (hlt : f.service < 65536) :
    splitAuthority f.authority.toList = .ok (f.host.toList, some f.service) := by
  have hchars : f.host.toList ≠ [] := by rwa [ne_eq, String.toList_eq_nil_iff]
  rw [toList_authority]
  split
  · exact splitAuthority_bracketed hchars hclose hlt
  · rename_i hcolon
    exact splitAuthority_plain hchars hopen hcolon hlt

theorem slash_notMem_authority (h : '/' ∉ f.host.toList) : '/' ∉ f.authority.toList := by
  have hdigits : '/' ∉ Nat.toDigits 10 f.service := notMem_toDigits (by decide) _
  rw [toList_authority]
  split <;> simp [h, hdigits]

/-! ## Schemes -/

/-- The scheme word of the canonical text. -/
def schemeText (f : Forwarder) : String := if f.plaintext then "http" else f.scheme.word

theorem splitScheme_ok {raw rest : List Char} {scheme : Scheme} {plaintext : Bool}
    (h : splitScheme raw = .ok (scheme, plaintext, rest)) :
    (plaintext = true → scheme = .https) ∧ rest <:+ raw := by
  unfold splitScheme at h
  split at h
  · cases h
    exact ⟨fun hplain => absurd hplain Bool.false_ne_true, List.suffix_rfl⟩
  · rename_i word written hword
    obtain ⟨⟨l, r⟩, hcut, heq⟩ := Option.map_eq_some_iff.mp hword
    cases heq
    have hsuffix : written <:+ raw := by
      rw [Text.eq_append_of_cut? hcut]
      exact List.suffix_append _ _
    split at h
    · cases h
      exact ⟨fun _ => rfl, hsuffix⟩
    · split at h
      · cases h
        exact ⟨fun hplain => absurd hplain Bool.false_ne_true, hsuffix⟩
      · cases h

/-- The canonical scheme word is taken off. -/
theorem splitScheme_schemeText (h : f.plaintext = true → f.scheme = .https) (rest : List Char) :
    splitScheme (f.schemeText.toList ++ ("://".toList ++ rest)) =
      .ok (f.scheme, f.plaintext, rest) := by
  have hword : f.schemeText.toList.map Char.toLower = f.schemeText.toList ∧
      ':' ∉ f.schemeText.toList := by
    unfold schemeText
    cases f.plaintext <;> cases f.scheme <;> decide
  have hcut : schemeWord? (f.schemeText.toList ++ ("://".toList ++ rest)) =
      some (f.schemeText, rest) := by
    have hpattern : Text.cut? [':', '/', '/'] (f.schemeText.toList ++ ("://".toList ++ rest)) =
        some (f.schemeText.toList, rest) := Text.cut?_append rest hword.2
    rw [schemeWord?, hpattern, Option.map_some]
    dsimp only
    rw [hword.1, String.ofList_toList]
  unfold splitScheme
  rw [hcut]
  unfold schemeText
  cases hplain : f.plaintext with
  | true =>
    rw [h hplain]
    rfl
  | false => cases f.scheme <;> rfl

/-! ## Parsing -/

/-- The forwarder with these parts; `written` is what follows the authority. -/
def ofParts (scheme : Scheme) (plaintext : Bool) (host : List Char) (service : Option Nat)
    (written : List Char) : Forwarder where
  scheme
  host := String.ofList host
  service := service.getD (if plaintext then 80 else scheme.defaultService)
  path := if scheme = .https then some (requestPath written) else none
  plaintext

theorem parse_eq (text : String) : parse text =
    if trimChars text.toList = [] then .error .empty
    else match splitScheme (trimChars text.toList) with
      | .error e => .error e
      | .ok (scheme, plaintext, rest) =>
        match splitAuthority (rest.takeWhile (· ≠ '/')) with
        | .error cause => .error (.authority (String.ofList (trimChars text.toList)) cause)
        | .ok (host, service) =>
          .ok (ofParts scheme plaintext host service (rest.dropWhile (· ≠ '/'))) := by
  unfold parse
  generalize trimChars text.toList = raw
  cases raw with
  | nil => rfl
  | cons c cs =>
    rw [if_neg (List.cons_ne_nil c cs)]
    dsimp only [List.isEmpty_cons]
    cases splitScheme (c :: cs) with
    | error e => rfl
    | ok parts =>
      obtain ⟨scheme, plaintext, rest⟩ := parts
      dsimp only
      cases hauthority : splitAuthority (rest.takeWhile (· ≠ '/'))
      all_goals
        show Except.bind _ _ = _
        rw [hauthority]
        rfl

theorem parse_eq_ok_iff {text : String} : parse text = .ok f ↔
    trimChars text.toList ≠ [] ∧ ∃ scheme plaintext rest host service,
      splitScheme (trimChars text.toList) = .ok (scheme, plaintext, rest) ∧
      splitAuthority (rest.takeWhile (· ≠ '/')) = .ok (host, service) ∧
      ofParts scheme plaintext host service (rest.dropWhile (· ≠ '/')) = f := by
  rw [parse_eq]
  constructor
  · intro h
    split at h
    · cases h
    · rename_i hsome
      split at h
      · cases h
      · rename_i hscheme
        split at h
        · cases h
        · rename_i hauthority
          cases h
          exact ⟨hsome, _, _, _, _, _, hscheme, hauthority, rfl⟩
  · rintro ⟨hsome, scheme, plaintext, rest, host, service, hscheme, hauthority, rfl⟩
    rw [if_neg hsome, hscheme]
    dsimp only
    rw [hauthority]

/-! ## Forwarders that a text can name -/

/-- What holds of every forwarder that is read from a text. -/
structure WellFormed (f : Forwarder) : Prop where
  host_ne : f.host ≠ ""
  host_plain : '/' ∉ f.host.toList
  service_lt : f.service < 65536
  plaintext_https : f.plaintext = true → f.scheme = .https
  path_isSome : f.path.isSome = true ↔ f.scheme = .https
  path_rooted : ∀ p ∈ f.path, ∃ cs, p.toList = '/' :: cs ∧ cs ≠ []
  path_trimmed : ∀ p ∈ f.path, ∀ c ∈ p.toList.getLast?, isBlank c = false

theorem fromSlash_cases (rest : List Char) :
    rest.dropWhile (· ≠ '/') = [] ∨ ∃ cs, rest.dropWhile (· ≠ '/') = '/' :: cs := by
  cases hrest : rest.dropWhile (· ≠ '/') with
  | nil => exact Or.inl rfl
  | cons c cs =>
    have hhead := List.head?_dropWhile_not (fun c => decide (c ≠ '/')) rest
    rw [hrest] at hhead
    exact Or.inr ⟨cs, by rw [of_not_not (of_decide_eq_false hhead)]⟩

/-- A request path is the default one, or what is written from the first slash on if that is more
than the slash. -/
theorem requestPath_cases (rest : List Char) :
    requestPath (rest.dropWhile (· ≠ '/')) = defaultPath ∨
      ∃ cs, cs ≠ [] ∧ rest.dropWhile (· ≠ '/') = '/' :: cs ∧
        requestPath (rest.dropWhile (· ≠ '/')) = String.ofList ('/' :: cs) := by
  unfold requestPath
  rcases fromSlash_cases rest with hnone | ⟨cs, hsome⟩
  · exact Or.inl (if_pos (Or.inl hnone))
  · rw [hsome]
    cases cs with
    | nil => exact Or.inl (if_pos (Or.inr rfl))
    | cons c cs => exact Or.inr ⟨c :: cs, List.cons_ne_nil c cs, rfl, if_neg (by simp)⟩

theorem requestPath_rooted (rest : List Char) :
    ∃ cs, (requestPath (rest.dropWhile (· ≠ '/'))).toList = '/' :: cs ∧ cs ≠ [] := by
  rcases requestPath_cases rest with hdefault | ⟨cs, hne, -, hpath⟩
  · rw [hdefault]
    exact ⟨"dns-query".toList, by decide, by decide⟩
  · rw [hpath]
    exact ⟨cs, String.toList_ofList, hne⟩

theorem requestPath_trimmed {raw rest : List Char} (h : rest <:+ trimChars raw) :
    ∀ c ∈ (requestPath (rest.dropWhile (· ≠ '/'))).toList.getLast?, isBlank c = false := by
  rcases requestPath_cases rest with hdefault | ⟨cs, -, hwritten, hpath⟩
  · have hlast : defaultPath.toList.getLast? = some 'y' := by decide
    rw [hdefault, hlast]
    rintro c ⟨⟩
    decide
  · have hsuffix : '/' :: cs <:+ trimChars raw := by
      rw [← hwritten]
      exact (List.dropWhile_suffix _).trans h
    obtain ⟨front, hfront⟩ := hsuffix
    have hlast := Text.getLast?_trimChars raw
    rw [← hfront, List.getLast?_append_of_ne_nil _ (List.cons_ne_nil _ _)] at hlast
    rwa [hpath, String.toList_ofList]

theorem wellFormed_of_parse {text : String} (h : parse text = .ok f) : f.WellFormed := by
  obtain ⟨-, scheme, plaintext, rest, host, service, hscheme, hauthority, rfl⟩ :=
    parse_eq_ok_iff.mp h
  obtain ⟨hplain, hrest⟩ := splitScheme_ok hscheme
  obtain ⟨hne, hsub, hlt⟩ := splitAuthority_ok hauthority
  have hpath : ∀ p ∈ (ofParts scheme plaintext host service (rest.dropWhile (· ≠ '/'))).path,
      p = requestPath (rest.dropWhile (· ≠ '/')) := by
    intro p hp
    unfold ofParts at hp
    dsimp only at hp
    split at hp
    · exact (Option.some.inj hp).symm
    · cases hp
  constructor
  case host_ne =>
    rwa [ofParts, ne_eq, ← String.toList_eq_nil_iff, String.toList_ofList]
  case host_plain =>
    rw [ofParts, String.toList_ofList]
    intro hmem
    exact absurd (List.mem_takeWhile_imp (hsub.subset hmem)) (by decide)
  case service_lt =>
    unfold ofParts
    cases service with
    | some n => exact hlt n rfl
    | none =>
      show (if plaintext then 80 else scheme.defaultService) < 65536
      cases plaintext <;> cases scheme <;> decide
  case plaintext_https => exact hplain
  case path_isSome =>
    unfold ofParts
    dsimp only
    split <;> simp_all
  case path_rooted =>
    intro p hp
    rw [hpath p hp]
    exact requestPath_rooted rest
  case path_trimmed =>
    intro p hp
    rw [hpath p hp]
    exact requestPath_trimmed hrest

/-! ## The canonical text -/

theorem toList_text (h : f.WellFormed) : f.text.toList =
    f.schemeText.toList ++ ("://".toList ++ (f.authority.toList ++ (f.path.getD "").toList)) := by
  obtain ⟨scheme, host, service, path, plaintext⟩ := f
  have hsome := h.path_isSome
  have hplain := h.plaintext_https
  unfold text schemeText
  cases scheme with
  | https =>
    obtain ⟨p, rfl⟩ := Option.isSome_iff_exists.mp (hsome.mpr rfl)
    cases plaintext <;> simp [url, Scheme.word]
  | tls | tcp | udp =>
    cases path with
    | some p => cases hsome.mp rfl
    | none =>
      cases plaintext with
      | true => cases hplain rfl
      | false => simp [Scheme.word]

theorem getLast?_toDigits_not_blank (n : Nat) :
    ∀ c ∈ (Nat.toDigits 10 n).getLast?, isBlank c = false := by
  intro c hc
  have hdigit := Nat.isDigit_of_mem_toDigits (by decide) (by decide) (List.mem_of_getLast? hc)
  exact Text.not_isBlank_of_isDigit hdigit

theorem getLast?_authority (f : Forwarder) :
    f.authority.toList.getLast? = (Nat.toDigits 10 f.service).getLast? := by
  have hdigits : Nat.toDigits 10 f.service ≠ [] := Text.toDigits_ne_nil f.service
  rw [toList_authority]
  split
  · rw [← List.cons_append, List.getLast?_append_of_ne_nil _ (List.cons_ne_nil _ _),
      List.getLast?_cons_of_ne_nil (List.cons_ne_nil _ _), List.getLast?_cons_of_ne_nil hdigits]
  · rw [List.getLast?_append_of_ne_nil _ (List.cons_ne_nil _ _),
      List.getLast?_cons_of_ne_nil hdigits]

/-- Blanks neither start nor end a canonical text. -/
theorem trimChars_text (h : f.WellFormed) : trimChars f.text.toList = f.text.toList := by
  rw [toList_text h]
  refine Text.trimChars_of_ends ?_ ?_
  · unfold schemeText
    cases f.plaintext <;> cases f.scheme <;> rintro c ⟨⟩ <;> decide
  · cases hpath : f.path with
    | none =>
      have hauthority : f.authority.toList ≠ [] := by
        rw [ne_eq, ← List.getLast?_eq_none_iff, getLast?_authority, List.getLast?_eq_none_iff]
        exact Text.toDigits_ne_nil f.service
      rw [Option.getD_none, String.toList_empty, List.append_nil, ← List.append_assoc,
        List.getLast?_append_of_ne_nil _ hauthority, getLast?_authority]
      exact getLast?_toDigits_not_blank f.service
    | some p =>
      obtain ⟨cs, hcs, -⟩ := h.path_rooted p hpath
      have hsome : p.toList ≠ [] := by
        rw [hcs]
        exact List.cons_ne_nil _ _
      rw [Option.getD_some, ← List.append_assoc, ← List.append_assoc,
        List.getLast?_append_of_ne_nil _ hsome]
      exact h.path_trimmed p hpath

/-- The authority ends where the path starts. -/
theorem splitAt_path (h : f.WellFormed) :
    (f.authority.toList ++ (f.path.getD "").toList).takeWhile (· ≠ '/') = f.authority.toList ∧
      (f.authority.toList ++ (f.path.getD "").toList).dropWhile (· ≠ '/') =
        (f.path.getD "").toList := by
  have hplain : ∀ c ∈ f.authority.toList, decide (c ≠ '/') = true := by
    intro c hc
    refine decide_eq_true ?_
    rintro rfl
    exact slash_notMem_authority h.host_plain hc
  have hroot : (f.path.getD "").toList.takeWhile (· ≠ '/') = [] ∧
      (f.path.getD "").toList.dropWhile (· ≠ '/') = (f.path.getD "").toList := by
    cases hpath : f.path with
    | none => exact ⟨rfl, rfl⟩
    | some p =>
      obtain ⟨cs, hcs, -⟩ := h.path_rooted p hpath
      rw [Option.getD_some, hcs]
      exact ⟨rfl, rfl⟩
  rw [List.takeWhile_append_of_pos hplain, List.dropWhile_append_of_pos hplain, hroot.1, hroot.2,
    List.append_nil]
  exact ⟨rfl, rfl⟩

theorem ofParts_self (h : f.WellFormed) : ofParts f.scheme f.plaintext f.host.toList
    (some f.service) (f.path.getD "").toList = f := by
  have hpath : (if f.scheme = .https then some (requestPath (f.path.getD "").toList) else none) =
      f.path := by
    split
    · rename_i hscheme
      obtain ⟨p, hp⟩ := Option.isSome_iff_exists.mp (h.path_isSome.mpr hscheme)
      obtain ⟨cs, hcs, hne⟩ := h.path_rooted p hp
      rw [hp, Option.getD_some, requestPath, if_neg (by simp [hcs, hne]), String.ofList_toList]
    · rename_i hscheme
      exact (Option.not_isSome_iff_eq_none.mp (mt h.path_isSome.mp hscheme)).symm
  unfold ofParts
  rw [hpath, String.ofList_toList]
  rfl

/-- The canonical text of a well-formed forwarder without brackets in its host names it. -/
theorem parse_text (h : f.WellFormed) (hopen : '[' ∉ f.host.toList)
    (hclose : ']' ∉ f.host.toList) : parse f.text = .ok f := by
  obtain ⟨htake, hdrop⟩ := splitAt_path h
  rw [parse_eq_ok_iff, trimChars_text h, toList_text h]
  refine ⟨by simp, f.scheme, f.plaintext, _, f.host.toList, some f.service,
    splitScheme_schemeText h.plaintext_https _, ?_, ?_⟩
  · rw [htake]
    exact splitAuthority_authority h.host_ne hopen hclose h.service_lt
  · rw [hdrop]
    exact ofParts_self h

/-- A text whose host has no brackets names a forwarder with a host and, exactly for HTTPS, a path
of more than a slash; its canonical text names the same forwarder, and is its own canonical text. -/
theorem text_round_trips {text : String} (h : parse text = .ok f) (hopen : '[' ∉ f.host.toList)
    (hclose : ']' ∉ f.host.toList) :
    f.host ≠ "" ∧ '/' ∉ f.host.toList ∧ (f.path.isSome = true ↔ f.scheme = .https) ∧
      (∀ p ∈ f.path, ∃ cs, p.toList = '/' :: cs ∧ cs ≠ []) ∧
      parse f.text = .ok f ∧ (parse f.text).map Forwarder.text = .ok f.text := by
  have hf := wellFormed_of_parse h
  have hback := parse_text hf hopen hclose
  refine ⟨hf.host_ne, hf.host_plain, hf.path_isSome, hf.path_rooted, hback, ?_⟩
  rw [hback]
  rfl

/-- A spelling with blanks around it, another case, a sign, and a slash for a path. -/
theorem doh_round_trips :
    let f : Forwarder := ⟨.https, "2001:db8::1", 8443, some "/dns-query", false⟩
    parse " DOH://[2001:db8::1]:+8443/ " = .ok f ∧ '[' ∉ f.host.toList ∧ ']' ∉ f.host.toList ∧
      f.text = "https://[2001:db8::1]:8443/dns-query" ∧ parse f.text = .ok f := by
  intro f
  have hparse : parse " DOH://[2001:db8::1]:+8443/ " = .ok f := rfl
  have hopen : '[' ∉ f.host.toList := by decide
  have hclose : ']' ∉ f.host.toList := by decide
  obtain ⟨-, -, -, -, hback, -⟩ := text_round_trips hparse hopen hclose
  exact ⟨hparse, hopen, hclose, by decide, hback⟩

end DnsGate.Forward.Forwarder
