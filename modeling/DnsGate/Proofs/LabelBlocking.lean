import Mathlib
import DnsGate.Proofs.CacheKey
import DnsGate.Proofs.CacheStore
import DnsGate.Proofs.LabelText
import DnsGate.Proofs.Listed
import DnsGate.Proofs.Sinkhole

/-!
Blocking by labels.  Hosts list a name by its labels if it, or an ancestor of it with at least two
labels, is the name of a host up to case (`ListedByLabels`).  The blocklist goes by the text of the
name instead, and cuts it at every dot.  Main statement: whatever hosts are listed, exactly the
names that they list by labels are sinkholed, if no hyphen and no dot of a name stands where it
misleads (`Name.Transparent`), and only then (`sinkholed_by_labels_iff`).
-/

namespace DnsGate.Dns.Name

/-! ## Names that their text tells -/

/-- Names whose text can be cut at dots: where they end in a host name all its labels are their own
text, and no label before labels of this kind ends in one after a dot of its own. -/
structure Transparent (n : Name) : Prop where
  plain : ∀ hs, hs <:+ n.labels → hs = n.labels ∨ 2 ≤ hs.length → (∀ l ∈ hs, HostLabel l) →
    ∀ l ∈ hs, PlainLabel l
  solid : ∀ l rest, l :: rest <:+ n.labels → rest ≠ [] → (∀ l' ∈ rest, PlainLabel l') →
    ∀ piece, 0x2E :: piece <:+ l → ¬ HostLabel piece

instance (n : Name) : Decidable n.Transparent :=
  decidable_of_iff
    ((∀ hs ∈ n.labels.tails, hs = n.labels ∨ 2 ≤ hs.length → (∀ l ∈ hs, HostLabel l) →
        ∀ l ∈ hs, PlainLabel l) ∧
      ∀ hs ∈ n.labels.tails, ∀ l ∈ hs.head?, hs.tail ≠ [] → (∀ l' ∈ hs.tail, PlainLabel l') →
        ∀ bs ∈ l.tails, bs.head? = some 0x2E → ¬ HostLabel bs.tail) (by
    constructor
    · rintro ⟨hplain, hsolid⟩
      refine ⟨fun hs hsuffix => hplain hs ((List.mem_tails _ _).mpr hsuffix), ?_⟩
      intro l rest hsuffix hne hrest piece hpiece
      exact hsolid (l :: rest) ((List.mem_tails _ _).mpr hsuffix) l rfl hne hrest
        (0x2E :: piece) ((List.mem_tails _ _).mpr hpiece) rfl
    · rintro ⟨hplain, hsolid⟩
      refine ⟨fun hs hmem => hplain hs ((List.mem_tails _ _).mp hmem), ?_⟩
      intro hs hmem l hl hne hrest bs hbs hdot
      rw [← List.cons_head?_tail hl, List.mem_tails] at hmem
      rw [← List.cons_head?_tail hdot, List.mem_tails] at hbs
      exact hsolid l hs.tail hmem hne hrest bs.tail hbs)

/-! ## Case -/

section Fold

variable {n : Name} {l : Label} {ls hs : List Label}

theorem isHostByte_foldByte (b : UInt8) : isHostByte (foldByte b) = isHostByte b :=
  forall_byte (P := fun b => isHostByte (foldByte b) = isHostByte b) (by decide +kernel) b

theorem foldByte_hyphen {b : UInt8} : foldByte b = 0x2D ↔ b = 0x2D :=
  forall_byte (P := fun b => foldByte b = 0x2D ↔ b = 0x2D) (by decide +kernel) b

theorem foldByte_dot {b : UInt8} : foldByte b = 0x2E ↔ b = 0x2E :=
  forall_byte (P := fun b => foldByte b = 0x2E ↔ b = 0x2E) (by decide +kernel) b

theorem byteChar_foldByte (b : UInt8) : byteChar (foldByte b) = (byteChar b).toLower :=
  forall_byte (P := fun b => byteChar (foldByte b) = (byteChar b).toLower) (by decide +kernel) b

theorem hostLabel_fold : HostLabel (l.map foldByte) ↔ HostLabel l := by
  simp only [HostLabel, ne_eq, List.map_eq_nil_iff, List.forall_mem_map, isHostByte_foldByte]

theorem plainLabel_fold : PlainLabel (l.map foldByte) ↔ PlainLabel l := by
  have hhead : (l.map foldByte).head? = some 0x2D ↔ l.head? = some 0x2D := by
    rw [List.head?_map]
    cases l.head? with
    | none => simp
    | some b => simp [foldByte_hyphen]
  rw [PlainLabel, PlainLabel, hostLabel_fold, ne_eq, ne_eq, hhead]

theorem literal_fold (ls : List Label) :
    literal (ls.map (List.map foldByte)) = (literal ls).map Char.toLower := by
  have hdot : ['.'].map Char.toLower = ['.'] := by decide
  simp only [literal, List.flatMap_map, List.map_flatMap, List.map_append, hdot, List.map_map,
    Function.comp_def, byteChar_foldByte]

/-- Names whose text can be cut at dots end in host names in their text just if they do. -/
theorem Transparent.endsIn_iff (h : n.Transparent) (hhs : ∀ l ∈ hs, HostLabel l)
    (hlong : hs = n.fold.labels ∨ 2 ≤ hs.length) :
    EndsIn n.fold.labels hs ↔ hs <:+ n.fold.labels := by
  constructor
  · rintro (⟨hsuffix, -⟩ | ⟨front, piece, rest, rfl, hsuffix, hplain⟩)
    · exact hsuffix
    · rcases hlong with hwhole | htwo
      · rw [hwhole]
      · exfalso
        obtain ⟨ms, hms, heq⟩ := List.suffix_map_iff.mp hsuffix
        obtain ⟨l, ms, rfl, hl, rfl⟩ := List.map_eq_cons_iff.mp heq.symm
        obtain ⟨before, bs, rfl, -, hbs⟩ := List.map_eq_append_iff.mp hl
        obtain ⟨b, bs, rfl, hb, rfl⟩ := List.map_eq_cons_iff.mp hbs
        rw [foldByte_dot] at hb
        refine h.solid _ ms hms ?_ ?_ bs ⟨before, by rw [hb]⟩ ?_
        · rintro rfl
          exact absurd htwo (by simp)
        · intro m hm
          exact plainLabel_fold.mp (hplain _ (List.mem_map_of_mem hm))
        · exact hostLabel_fold.mp (hhs _ List.mem_cons_self)
  · intro hsuffix
    refine Or.inl ⟨hsuffix, ?_⟩
    obtain ⟨ms, hms, rfl⟩ := List.suffix_map_iff.mp hsuffix
    have hlong' : ms = n.labels ∨ 2 ≤ ms.length := by
      rcases hlong with hwhole | htwo
      · have hlen := congrArg List.length hwhole
        rw [fold, List.length_map, List.length_map] at hlen
        exact Or.inl (hms.eq_of_length hlen)
      · exact Or.inr (by rwa [List.length_map] at htwo)
    have hplain := h.plain ms hms hlong' fun l hl =>
      hostLabel_fold.mp (hhs _ (List.mem_map_of_mem hl))
    rw [List.forall_mem_map]
    exact fun l hl => plainLabel_fold.mpr (hplain l hl)

theorem transparent_of_endsIn (h : ∀ hs, (∀ l ∈ hs, HostLabel l) →
      hs = n.labels ∨ 2 ≤ hs.length →
      (EndsIn n.fold.labels (hs.map (List.map foldByte)) ↔
        hs.map (List.map foldByte) <:+ n.fold.labels)) : n.Transparent := by
  constructor
  · intro hs hsuffix hlong hhs l hl
    have hends := (h hs hhs hlong).mpr (hsuffix.map _)
    exact plainLabel_fold.mp (hends.plain (hsuffix.map _) _ (List.mem_map_of_mem hl))
  · rintro l rest hsuffix hne hplain piece ⟨front, rfl⟩ hpiece
    have hhs : ∀ l ∈ piece :: rest, HostLabel l :=
      List.forall_mem_cons.mpr ⟨hpiece, fun l hl => (hplain l hl).1⟩
    have hlong : 2 ≤ (piece :: rest).length :=
      Nat.succ_le_succ (List.length_pos_iff.mpr hne)
    have hdot : (front.map foldByte ++ 0x2E :: piece.map foldByte) ::
        rest.map (List.map foldByte) <:+ n.fold.labels := by
      have hmap := hsuffix.map (List.map foldByte)
      rwa [List.map_cons, List.map_append, List.map_cons, foldByte_dot.mpr rfl] at hmap
    have hrest : ∀ l ∈ rest.map (List.map foldByte), PlainLabel l := by
      rw [List.forall_mem_map]
      exact fun l hl => plainLabel_fold.mpr (hplain l hl)
    have hends := (h (piece :: rest) hhs (Or.inr hlong)).mp
      (Or.inr ⟨_, _, _, rfl, hdot, hrest⟩)
    exact not_suffix_of_dot hdot hends

end Fold

end DnsGate.Dns.Name

namespace DnsGate.Serve

open Blocklist (Generation Manager SourceError)
open Dns (Label Name)
open Dns.Name (EndsIn HostLabel byteChar isHostByte isHostChar literal)

/-! ## Hosts -/

/-- A host name: labels of letters, digits, hyphens and underscores, not empty, joined by dots. -/
def OrdinaryHost (host : String) : Prop :=
  ∀ piece ∈ host.toList.splitOn '.', piece ≠ [] ∧ ∀ c ∈ piece, isHostChar c = true

instance (host : String) : Decidable (OrdinaryHost host) :=
  decidable_of_iff
    (∀ piece ∈ host.toList.splitOn '.', piece ≠ [] ∧ piece.all isHostChar = true)
    (by simp only [OrdinaryHost, List.all_eq_true])

/-- The name that a host has. -/
def nameOf (host : String) : Name :=
  ⟨(host.toList.splitOn '.').map (List.map fun c => UInt8.ofNat c.toNat)⟩

/-- Hosts list a name by its labels: it, or an ancestor of it with at least two labels, is the name
of one of them up to case. -/
def ListedByLabels (hosts : List String) (n : Name) : Prop :=
  ∃ host ∈ hosts, ∃ a : Name, a.labels <:+ n.labels ∧ (a = n ∨ 2 ≤ a.labels.length) ∧
    Name.SameUpToCase a (nameOf host)

section Hosts

variable {host : String} {hosts : List String} {n : Name}

theorem byteChar_ofNat {c : Char} (h : isHostChar c = true) :
    byteChar (UInt8.ofNat c.toNat) = c := by
  have hlt : c.toNat < 128 := by
    simp only [isHostChar, Char.isAlphanum, Char.isAlpha, Char.isUpper, Char.isLower, Char.isDigit,
      Bool.or_eq_true, Bool.and_eq_true, decide_eq_true_eq, beq_iff_eq, ge_iff_le,
      UInt32.le_iff_toNat_le] at h
    rcases h with (((⟨-, h⟩ | ⟨-, h⟩) | ⟨-, h⟩) | rfl) | rfl
    · exact Nat.lt_of_le_of_lt h (by decide)
    · exact Nat.lt_of_le_of_lt h (by decide)
    · exact Nat.lt_of_le_of_lt h (by decide)
    · decide
    · decide
  rw [byteChar, UInt8.toNat_ofNat', Nat.mod_eq_of_lt (by omega), Char.ofNat_toNat]

/-- The bytes of pieces of text are read as the pieces. -/
theorem literal_pieces {ps : List (List Char)} (h : ∀ p ∈ ps, ∀ c ∈ p, isHostChar c = true)
    (hne : ps ≠ []) : literal (ps.map (List.map fun c => UInt8.ofNat c.toNat)) =
      ['.'].intercalate ps ++ ['.'] := by
  induction ps with
  | nil => exact absurd rfl hne
  | cons p ps ih =>
    obtain ⟨hp, hps⟩ := List.forall_mem_cons.mp h
    have hback : (p.map fun c => UInt8.ofNat c.toNat).map byteChar = p := by
      rw [List.map_map]
      exact (List.map_congr_left fun c hc => byteChar_ofNat (hp c hc)).trans (List.map_id' p)
    cases ps with
    | nil => simp [hback, literal]
    | cons p' ps =>
      rw [List.map_cons, Name.literal_cons, hback, ih hps (List.cons_ne_nil _ _),
        List.intercalate_cons_cons]
      simp

/-- The labels of a host are labels of host names. -/
theorem OrdinaryHost.labels (h : OrdinaryHost host) : ∀ l ∈ (nameOf host).labels, HostLabel l := by
  intro l hl
  obtain ⟨piece, hpiece, rfl⟩ := List.mem_map.mp hl
  obtain ⟨hne, hchars⟩ := h piece hpiece
  refine ⟨by simpa using hne, ?_⟩
  rw [List.forall_mem_map]
  intro c hc
  rw [isHostByte, byteChar_ofNat (hchars c hc)]
  exact hchars c hc

theorem OrdinaryHost.literal (h : OrdinaryHost host) :
    literal (nameOf host).labels = host.toList ++ ['.'] := by
  rw [nameOf, literal_pieces (fun p hp => (h p hp).2) (List.splitOn_ne_nil _ _),
    List.intercalate_splitOn]

/-- A host is stored as the text of its name in lower case. -/
theorem OrdinaryHost.literal_bare (h : OrdinaryHost host) :
    Name.literal (nameOf host).fold.labels = (Rules.bare host).toList ++ ['.'] := by
  obtain ⟨xs, c, hhost, hc⟩ := Name.exists_last h.labels (by simp [nameOf]) h.literal
  have hdot : c ≠ '.' := (Name.ne_of_isHostChar hc).1
  have hkeep : Text.dropLastOne '.' host.toList = host.toList := by
    rw [hhost, Text.dropLastOne, if_neg (by simpa using hdot)]
  rw [Name.fold, Name.literal_fold, h.literal, Rules.toList_bare, Rules.bareChars, hkeep,
    List.map_append]
  rfl

theorem OrdinaryHost.fold_labels (h : OrdinaryHost host) :
    ∀ l ∈ (nameOf host).fold.labels, HostLabel l := by
  rw [Name.fold, List.forall_mem_map]
  exact fun l hl => Name.hostLabel_fold.mpr (h.labels l hl)

/-- A host is stored as a domain: it starts with no dot. -/
theorem OrdinaryHost.bare_first (h : OrdinaryHost host) :
    Rules.bare host ≠ "" ∧ Rules.RuleSet.isSuffix (Rules.bare host) = false := by
  obtain ⟨c, cs, hchars, hc⟩ :=
    Name.exists_first h.fold_labels (by simp [nameOf, Name.fold]) h.literal_bare
  constructor
  · intro hempty
    rw [hempty] at hchars
    cases hchars
  · rw [Rules.RuleSet.isSuffix, hchars]
    apply beq_false_of_ne
    exact fun hdot => (Name.ne_of_isHostChar hc).1 (Option.some.inj hdot)

theorem listedByLabels_iff : ListedByLabels hosts n ↔
    ∃ host ∈ hosts, (nameOf host).fold.labels <:+ n.fold.labels ∧
      ((nameOf host).fold.labels = n.fold.labels ∨ 2 ≤ (nameOf host).fold.labels.length) := by
  constructor
  · rintro ⟨host, hhost, a, hsuffix, hlong, hcase⟩
    have hfold : (nameOf host).fold.labels = a.fold.labels := hcase.symm
    refine ⟨host, hhost, ?_, ?_⟩
    · rw [hfold]
      exact hsuffix.map _
    · rcases hlong with rfl | htwo
      · exact Or.inl hfold
      · rw [hfold, Name.fold, List.length_map]
        exact Or.inr htwo
  · rintro ⟨host, hhost, hsuffix, hlong⟩
    obtain ⟨ls, hls, heq⟩ := List.suffix_map_iff.mp hsuffix
    refine ⟨host, hhost, ⟨ls⟩, hls, ?_, heq.symm⟩
    have hlen : (nameOf host).fold.labels.length = ls.length := by rw [heq, List.length_map]
    rcases hlong with hwhole | htwo
    · rw [hwhole, Name.fold, List.length_map] at hlen
      exact Or.inl (congrArg Name.mk (hls.eq_of_length hlen.symm))
    · exact Or.inr (hlen ▸ htwo)

instance (hosts : List String) (n : Name) : Decidable (ListedByLabels hosts n) :=
  decidable_of_iff _ listedByLabels_iff.symm

/-- The host that has labels. -/
def hostOf (ls : List Label) : String :=
  String.ofList (['.'].intercalate (ls.map (List.map byteChar)))

section HostOf

variable {ls : List Label} (hls : ∀ l ∈ ls, HostLabel l) (hne : ls ≠ [])

include hls hne

theorem splitOn_hostOf : (hostOf ls).toList.splitOn '.' = ls.map (List.map byteChar) := by
  rw [hostOf, String.toList_ofList, List.splitOn_intercalate]
  · rw [List.forall_mem_map]
    exact fun l hl => (hls l hl).dot_not_mem
  · rwa [ne_eq, List.map_eq_nil_iff]

theorem nameOf_hostOf : nameOf (hostOf ls) = ⟨ls⟩ := by
  have hback : ∀ b : UInt8, UInt8.ofNat (byteChar b).toNat = b :=
    Name.forall_byte (by decide +kernel)
  rw [nameOf, splitOn_hostOf hls hne, List.map_map]
  congr 1
  conv_rhs => rw [← List.map_id ls]
  refine List.map_congr_left fun l _ => ?_
  rw [Function.comp_apply, List.map_map, id_eq]
  conv_rhs => rw [← List.map_id l]
  exact List.map_congr_left fun b _ => hback b

theorem ordinaryHost_hostOf : OrdinaryHost (hostOf ls) := by
  rw [OrdinaryHost, splitOn_hostOf hls hne, List.forall_mem_map]
  intro l hl
  obtain ⟨hl, hbytes⟩ := hls l hl
  rw [List.forall_mem_map]
  exact ⟨by simpa using hl, hbytes⟩

end HostOf

/-- A file with one line lists its host. -/
theorem hosts_of_ordinary (h : OrdinaryHost host) :
    Blocklist.hosts (Blocklist.hostLine host) = [host] := by
  have hbytes : ∀ l ∈ (nameOf host).labels, ∀ b ∈ l, isHostByte b = true := fun l hl =>
    (h.labels l hl).2
  obtain ⟨xs, c, hlast, -⟩ := Name.exists_last h.labels (by simp [nameOf]) h.literal
  refine Blocklist.hosts_hostLine (by simp [hlast]) fun d hd => ?_
  refine Name.literal_not_blank hbytes d ?_
  rw [h.literal]
  exact List.mem_append_left _ hd

end Hosts

/-! ## Generations -/

section Blocks

variable {read : String → Except SourceError String} {now : Int} {sources : List String} {n : Name}

/-- What a generation blocks: names that end in a host in their text. -/
theorem build_blocks_iff (hn : ∀ l ∈ n.labels, l ≠ [])
    (hhosts : ∀ host ∈ Blocklist.listed read sources, OrdinaryHost host) :
    (Generation.build read now sources).blocks (domainOf n) = true ↔
      ∃ host ∈ Blocklist.listed read sources, EndsIn n.fold.labels (nameOf host).fold.labels ∧
        ((nameOf host).fold.labels = n.fold.labels ∨
          2 ≤ (nameOf host).fold.labels.length) := by
  have hfold : ∀ l ∈ n.fold.labels, l ≠ [] := by
    rw [Name.fold, List.forall_mem_map]
    intro l hl
    rw [ne_eq, List.map_eq_nil_iff]
    exact hn l hl
  have hdomains : ∀ e ∈ (Generation.build read now sources).rules,
      Rules.RuleSet.isSuffix e = false := by
    intro e he
    obtain ⟨host, hhost, rfl, -⟩ := Generation.mem_build.mp he
    exact (hhosts host hhost).bare_first.2
  have hchars : Rules.bareChars (domainOf n).toList = Name.dropDots n.fold.asciiChars := by
    rw [← Rules.toList_bare, toList_bare_domainOf]
  have hends : ∀ host ∈ Blocklist.listed read sources,
      (Name.dropDots n.fold.asciiChars = (Rules.bare host).toList ∨
        '.' ∈ (Rules.bare host).toList ∧
          ∃ pre, Name.dropDots n.fold.asciiChars = pre ++ '.' :: (Rules.bare host).toList) ↔
      EndsIn n.fold.labels (nameOf host).fold.labels ∧
        ((nameOf host).fold.labels = n.fold.labels ∨
          2 ≤ (nameOf host).fold.labels.length) := fun host hhost =>
    Name.dropDots_ends_iff hfold (hhosts host hhost).fold_labels (by simp [nameOf, Name.fold])
      (hhosts host hhost).literal_bare
  rw [Generation.blocks, Rules.RuleSet.lists_iff hdomains]
  simp only [hchars]
  constructor
  · rintro ⟨e, he, hmatch⟩
    obtain ⟨host, hhost, rfl, -⟩ := Generation.mem_build.mp he
    exact ⟨host, hhost, (hends host hhost).mp hmatch⟩
  · rintro ⟨host, hhost, hmatch⟩
    refine ⟨Rules.bare host, ?_, (hends host hhost).mpr hmatch⟩
    exact Generation.mem_build.mpr ⟨host, hhost, rfl, (hhosts host hhost).bare_first.1⟩

end Blocks

/-! ## Sinkholed questions -/

section Questions

variable {w : Wiring} {s : Surroundings} {now : UInt64} {q : Dns.Question} {st : State}

/-- A question is sinkholed: it gets the sinkhole address and leaves the state as it is. -/
def Sinkholed (w : Wiring) (s : Surroundings) (now : UInt64) (q : Dns.Question) (st : State) :
    Prop :=
  (resolveQuestion w s now q).run st = ([sinkhole q.name], st)

variable (w s now) in
/-- A question that is not blocked is counted by the cache. -/
theorem resolveQuestion_counts (h : st.live.blocks (domainOf q.name) = false) :
    ((resolveQuestion w s now q).run st).2.cache.hits +
        ((resolveQuestion w s now q).run st).2.cache.misses =
      st.cache.hits + st.cache.misses + 1 := by
  have hcounts := Cache.Store.get_counts st.cache now (domainOf q.name) q.type
  rcases hget : st.cache.get now (domainOf q.name) q.type with ⟨_ | records, cache⟩
  · rw [hget] at hcounts
    rcases hask : w.resolver.resolve s.world q st.traffic with ⟨_ | m, traffic⟩
    · obtain ⟨calls, failures, hrun⟩ := resolveQuestion_unanswered h hget hask
      rw [hrun]
      exact hcounts
    · obtain ⟨calls, failures, hrun⟩ := resolveQuestion_answered h hget hask
      obtain ⟨hhits, hmisses⟩ :=
        Cache.Store.storeAnswers_counts cache now (domainOf q.name) q.type m.answers
      rw [hrun]
      show (cache.storeAnswers now (domainOf q.name) q.type m.answers).hits +
        (cache.storeAnswers now (domainOf q.name) q.type m.answers).misses = _
      rw [hhits, hmisses]
      exact hcounts
  · rw [hget] at hcounts
    obtain ⟨calls, failures, hrun⟩ := resolveQuestion_hit (w := w) (s := s) h hget
    rw [hrun]
    exact hcounts

theorem sinkholed_iff : Sinkholed w s now q st ↔ st.live.blocks (domainOf q.name) = true := by
  constructor
  · intro h
    by_contra hallowed
    have hcounts := resolveQuestion_counts w s now (Bool.eq_false_iff.mpr hallowed)
    rw [h] at hcounts
    exact Nat.ne_of_lt (Nat.lt_succ_self _) hcounts
  · exact resolveQuestion_blocked

end Questions

/-! ## Labels and text -/

/-- The blocklist in use was built from sources that list these hosts. -/
def Live.Lists (l : Live) (hosts : List String) : Prop :=
  ∃ m read now sources, l.blocklist = some m ∧
    m.generation = Generation.build read now sources ∧ hosts = Blocklist.listed read sources

section Agreement

variable {n : Name} {hosts : List String} {st : State}

theorem Live.blocks_domainOf_iff (h : st.live.Lists hosts) (hn : ∀ l ∈ n.labels, l ≠ [])
    (hhosts : ∀ host ∈ hosts, OrdinaryHost host) :
    st.live.blocks (domainOf n) = true ↔
      ∃ host ∈ hosts, EndsIn n.fold.labels (nameOf host).fold.labels ∧
        ((nameOf host).fold.labels = n.fold.labels ∨
          2 ≤ (nameOf host).fold.labels.length) := by
  obtain ⟨m, read, now, sources, hlive, hgen, rfl⟩ := h
  rw [← build_blocks_iff hn hhosts, ← hgen, Live.blocks, hlive]
  rfl

/-- A state whose blocklist was built from a file with one line. -/
def oneListed (host : String) : State where
  live := ⟨.empty, some {
    generation := .build (fun _ => .ok (Blocklist.hostLine host)) 0 [""]
    sources := [""]
    interval := 0 }⟩

theorem lists_oneListed {host : String} (h : OrdinaryHost host) :
    (oneListed host).live.Lists [host] := by
  refine ⟨_, _, 0, [""], rfl, rfl, ?_⟩
  rw [Blocklist.listed, List.flatMap_singleton]
  exact (hosts_of_ordinary h).symm

/-- Sinkholing goes by labels, exactly for transparent names.  For any name, the following are the
same: whatever ordinary hosts the sources of the blocklist list, and whatever else the server holds,
a question for the name is sinkholed just if the hosts list the name by its labels; and the text of
the name can be cut at dots. -/
theorem sinkholed_by_labels_iff (hn : ∀ l ∈ n.labels, l ≠ []) :
    (∀ hosts st, st.live.Lists hosts → (∀ host ∈ hosts, OrdinaryHost host) →
      ∀ w s now q, q.name = n → (Sinkholed w s now q st ↔ ListedByLabels hosts n)) ↔
    n.Transparent := by
  constructor
  · intro h
    -- lists of one host are enough
    refine Name.transparent_of_endsIn fun hs hhs hlong => ?_
    by_cases hne : hs = []
    · subst hne
      exact iff_of_true (Or.inl ⟨List.nil_suffix, List.forall_mem_nil _⟩) List.nil_suffix
    have hst := lists_oneListed (ordinaryHost_hostOf hhs hne)
    have hall : ∀ host ∈ [hostOf hs], OrdinaryHost host := by
      rw [List.forall_mem_singleton]
      exact ordinaryHost_hostOf hhs hne
    have hiff := h _ _ hst hall ⟨⟨[], 0⟩, none, none⟩ ⟨.unreachable, .idle⟩ 0 ⟨n, 1, 1⟩ rfl
    have hfold : (nameOf (hostOf hs)).fold.labels = hs.map (List.map Name.foldByte) := by
      rw [nameOf_hostOf hhs hne, Name.fold]
    rw [sinkholed_iff, Live.blocks_domainOf_iff hst hn hall, listedByLabels_iff] at hiff
    simp only [List.mem_singleton, exists_eq_left, hfold] at hiff
    refine and_congr_left_iff.mp hiff ?_
    rw [List.length_map]
    exact hlong.imp_left fun hwhole => by rw [hwhole, Name.fold]
  · intro h hosts st hst hhosts w s now q hq
    rw [sinkholed_iff, hq, Live.blocks_domainOf_iff hst hn hhosts, listedByLabels_iff]
    refine exists_congr fun host => and_congr_right fun hhost => and_congr_left fun hlong => ?_
    exact h.endsIn_iff (hhosts host hhost).fold_labels hlong

end Agreement

/-! ## Names that mislead -/

/-- The name of two labels `x.ads` and `test`. -/
def dotted : Name := ⟨[[0x78, 0x2E, 0x61, 0x64, 0x73], [0x74, 0x65, 0x73, 0x74]]⟩

/-- The name `-ads.test`. -/
def hyphened : Name := ⟨[[0x2D, 0x61, 0x64, 0x73], [0x74, 0x65, 0x73, 0x74]]⟩

/-- Whatever is listed, questions for `ads.test` are sinkholed by labels; those for the first of
these names are not. -/
theorem ads_by_labels :
    (∀ l ∈ ads.labels, l ≠ []) ∧ (∀ l ∈ dotted.labels, l ≠ []) ∧
      (∀ hosts st, st.live.Lists hosts → (∀ host ∈ hosts, OrdinaryHost host) →
        ∀ w s now q, q.name = ads → (Sinkholed w s now q st ↔ ListedByLabels hosts ads)) ∧
      ¬ ∀ hosts st, st.live.Lists hosts → (∀ host ∈ hosts, OrdinaryHost host) →
        ∀ w s now q, q.name = dotted →
          (Sinkholed w s now q st ↔ ListedByLabels hosts dotted) := by
  have hads : ∀ l ∈ ads.labels, l ≠ [] := by decide
  have hdotted : ∀ l ∈ dotted.labels, l ≠ [] := by decide
  refine ⟨hads, hdotted, (sinkholed_by_labels_iff hads).mpr ?_,
    mt (sinkholed_by_labels_iff hdotted).mp ?_⟩
  · decide +kernel
  · decide +kernel

/-- The host `ads.test` has the first name sinkholed, of which it is no ancestor, and the host
`-ads.test` does not have its own name sinkholed. -/
theorem text_misleads :
    let w : Wiring := ⟨⟨[], 0⟩, none, none⟩
    let s : Surroundings := ⟨.unreachable, .idle⟩
    OrdinaryHost "ads.test" ∧ (oneListed "ads.test").live.Lists ["ads.test"] ∧
      ¬ ListedByLabels ["ads.test"] dotted ∧
      Sinkholed w s 0 ⟨dotted, Dns.RType.a, Dns.internet⟩ (oneListed "ads.test") ∧
    OrdinaryHost "-ads.test" ∧ (oneListed "-ads.test").live.Lists ["-ads.test"] ∧
      ListedByLabels ["-ads.test"] hyphened ∧
      ¬ Sinkholed w s 0 ⟨hyphened, Dns.RType.a, Dns.internet⟩ (oneListed "-ads.test") := by
  have hads : OrdinaryHost "ads.test" := by decide +kernel
  have hhyphen : OrdinaryHost "-ads.test" := by decide +kernel
  refine ⟨hads, lists_oneListed hads, by decide +kernel, sinkholed_iff.mpr ?_, hhyphen,
    lists_oneListed hhyphen, by decide +kernel, mt sinkholed_iff.mp ?_⟩
  · decide +kernel
  · decide +kernel

end DnsGate.Serve
