import DnsGate.Proofs.Fallback
import DnsGate.Proofs.ForwarderText

/-!
The order of forwarders against what their texts name.  Ranking looks at the scheme word of a text
only, and has a table of words of its own; reading the text has another one.  The tables agree
(`rank_eq`).  Main statement: a text that names a forwarder has the rank of its scheme, the last
rank is that of the texts with an unknown scheme, and ranking sorts stably, so that no such text
comes before one that names a forwarder (`ranking_agrees_with_parsing`).
-/

namespace DnsGate.Forward

open Forwarder (splitScheme schemeWord? parse parse_eq parse_eq_ok_iff)
open Text (trimChars)

/-- The order in which schemes are tried, lower first. -/
def Scheme.rank : Scheme → Nat
  | .https => 0
  | .tls => 1
  | .tcp => 2
  | .udp => 3

/-! ## Words -/

theorem wordRank_of_ofWord? {word : String} {scheme : Scheme}
    (h : Scheme.ofWord? word = some scheme) : wordRank word = scheme.rank := by
  unfold Scheme.ofWord? at h
  split at h <;> cases h <;> rfl

theorem wordRank_of_unknown {word : String} (hhttp : word ≠ "http")
    (h : Scheme.ofWord? word = none) : wordRank word = 99 := by
  unfold wordRank
  split
  case h_3 => exact absurd rfl hhttp
  case h_8 => rfl
  all_goals exact absurd h (by decide)

theorem Scheme.rank_lt (scheme : Scheme) : scheme.rank < 99 := by
  cases scheme <;> decide

/-! ## Texts -/

/-- The rank of a text is that of the scheme that is read from it. -/
theorem rank_eq (text : String) : rank text =
    match splitScheme (trimChars text.toList) with
    | .ok (scheme, _) => scheme.rank
    | .error _ => 99 := by
  unfold rank splitScheme
  cases hword : schemeWord? (trimChars text.toList) with
  | none => rfl
  | some parts =>
    obtain ⟨word, rest⟩ := parts
    dsimp only
    by_cases hhttp : word = "http"
    · rw [if_pos hhttp, hhttp]
      rfl
    · rw [if_neg hhttp]
      cases hscheme : Scheme.ofWord? word with
      | none => exact wordRank_of_unknown hhttp hscheme
      | some scheme => exact wordRank_of_ofWord? hscheme

theorem rank_of_parse {text : String} {f : Forwarder} (h : parse text = .ok f) :
    rank text = f.scheme.rank := by
  obtain ⟨-, scheme, plaintext, rest, host, service, hscheme, -, rfl⟩ := parse_eq_ok_iff.mp h
  rw [rank_eq, hscheme]
  rfl

/-- The one reason to refuse a scheme is that its word is not known. -/
theorem exists_of_splitScheme_error {raw : List Char} {cause : Forwarder.ParseError}
    (h : splitScheme raw = .error cause) : ∃ word, cause = .scheme word (String.ofList raw) := by
  unfold splitScheme at h
  split at h
  · cases h
  · rename_i word rest hword
    split at h
    · cases h
    · split at h
      · cases h
      · cases h
        exact ⟨word, rfl⟩

/-- The last rank is that of the texts with a scheme that is not known. -/
theorem rank_last_iff {text : String} :
    rank text = 99 ↔ ∃ word raw, parse text = .error (.scheme word raw) := by
  rw [rank_eq, parse_eq]
  cases hscheme : splitScheme (trimChars text.toList) with
  | error cause =>
    obtain ⟨word, rfl⟩ := exists_of_splitScheme_error hscheme
    refine iff_of_true rfl ⟨word, String.ofList (trimChars text.toList), if_neg fun hempty => ?_⟩
    rw [hempty] at hscheme
    cases hscheme
  | ok parts =>
    obtain ⟨scheme, plaintext, rest⟩ := parts
    refine iff_of_false (Nat.ne_of_lt scheme.rank_lt) ?_
    rintro ⟨word, raw, h⟩
    dsimp only at h
    split at h
    · cases h
    · split at h
      · cases h
      · cases h

/-! ## The order -/

/-- Ranks agree with what is read from the texts, and sorting by them keeps texts with an unknown
scheme behind all that name a forwarder. -/
theorem ranking_agrees_with_parsing :
    (∀ text f, parse text = .ok f → rank text = f.scheme.rank) ∧
    (∀ text, rank text = 99 ↔ ∃ word raw, parse text = .error (.scheme word raw)) ∧
    ∀ texts, (ranked texts).Perm texts ∧
      ((ranked texts).Pairwise fun a b => rank a ≤ rank b) ∧
      (∀ k, (ranked texts).filter (rank · = k) = texts.filter (rank · = k)) ∧
      (ranked texts).Pairwise fun a b =>
        (∃ word raw, parse a = .error (.scheme word raw)) → ∀ f, parse b ≠ .ok f := by
  refine ⟨fun _ _ => rank_of_parse, fun _ => rank_last_iff, fun texts =>
    ⟨ranked_perm texts, ranked_pairwise texts, ranked_stable texts, ?_⟩⟩
  refine (ranked_pairwise texts).imp fun {a b} hab hunknown f hf => ?_
  have hlast : rank a = 99 := rank_last_iff.mpr hunknown
  have hnamed : rank b < 99 := by
    rw [rank_of_parse hf]
    exact f.scheme.rank_lt
  omega

theorem doh_ranked_first :
    parse " DOH://dns.test " = .ok ⟨.https, "dns.test", 443, some "/dns-query", false⟩ ∧
      rank " DOH://dns.test " = 0 := by
  have hparse : parse " DOH://dns.test " =
      .ok ⟨.https, "dns.test", 443, some "/dns-query", false⟩ := rfl
  exact ⟨hparse, ranking_agrees_with_parsing.1 _ _ hparse⟩

end DnsGate.Forward
