import Mathlib
import DnsGate.Proofs.Listed

/-!
Comments at the ends of lines of a hosts text.  The host of a line is told from its fields alone
(`hostChars?_eq`), and what comes after a blank only adds fields at the end: so a comment after two
fields or more is not seen, and one after no field makes the line a comment.  A line of one field
becomes one of more, and the sign of the comment starts its host.  Main statement: a comment leaves
the hosts of a text as they are, exactly unless its line has one field (`hosts_commented_iff`).
-/

namespace DnsGate.Blocklist

open Text (dropReturn fields isBlank lineChars)

/-! ## The host of a line -/

section Line

variable {b : Char} {line : List Char}

theorem hostChars?_comment (comment : List Char) : hostChars? ('#' :: comment) = none := by
  obtain ⟨f, fs, hfields⟩ := Text.fields_cons (c := '#') (by decide) comment
  rw [hostChars?_eq, hfields]
  rfl

/-- A blank at the end is in no field. -/
theorem hostChars?_append_blank (hb : isBlank b = true) (line : List Char) :
    hostChars? (line ++ [b]) = hostChars? line := by
  rw [hostChars?_eq, hostChars?_eq, Text.fields_append hb, Text.fields_nil, List.append_nil]

theorem hostChars?_dropReturn (line : List Char) :
    hostChars? (dropReturn line) = hostChars? line := by
  unfold dropReturn
  split
  · rename_i hlast
    obtain ⟨cs, rfl⟩ := List.getLast?_eq_some_iff.mp hlast
    rw [List.dropLast_concat, hostChars?_append_blank (by decide)]
  · rfl

/-- A line of one field that is not a comment. -/
def LoneField (line : List Char) : Prop :=
  (fields line).length = 1 ∧ ∀ f ∈ fields line, f.head? ≠ some '#'

instance (line : List Char) : Decidable (LoneField line) :=
  inferInstanceAs (Decidable (_ ∧ _))

/-- A comment changes the host of a line just if the line has one field. -/
theorem hostChars?_commented_iff (hb : isBlank b = true) (comment : List Char) :
    hostChars? (line ++ b :: '#' :: comment) = hostChars? line ↔ ¬ LoneField line := by
  obtain ⟨g, gs, hcomment⟩ := Text.fields_cons (c := '#') (by decide) comment
  rw [LoneField, hostChars?_eq, hostChars?_eq, Text.fields_append hb, hcomment]
  rcases fields line with _ | ⟨f, _ | ⟨f', fs⟩⟩
  · simp
  · -- only here does the sign of the comment become the second field
    by_cases hf : f.head? = some '#'
    · simp [hf]
    · simp [hf]
  · simp

end Line

/-! ## The hosts of a text -/

/-- The hosts of a text, on characters. -/
def hostsIn (cs : List Char) : List (List Char) := (lineChars cs []).filterMap hostChars?

theorem hosts_ofList (cs : List Char) :
    hosts (String.ofList cs) = (hostsIn cs).map String.ofList := by
  rw [hosts, Text.lines, String.toList_ofList, List.filterMap_map, hostsIn, List.map_filterMap]
  refine List.filterMap_congr fun line _ => ?_
  rw [Function.comp_apply, hostOfLine?, String.toList_ofList]

section Lines

variable {line : List Char}

theorem hostsIn_newline (hline : '\n' ∉ line) (cs : List Char) :
    hostsIn (line ++ '\n' :: cs) = (hostChars? line).toList ++ hostsIn cs := by
  rw [hostsIn, Text.lineChars_newline hline, List.reverse_nil, List.nil_append,
    List.filterMap_cons, hostChars?_dropReturn]
  cases hostChars? line with
  | none => rfl
  | some host => rfl

theorem hostsIn_last (hline : '\n' ∉ line) : hostsIn line = (hostChars? line).toList := by
  cases line with
  | nil => rfl
  | cons c cs =>
    have hne : ([] : List Char).reverse ++ c :: cs ≠ [] := by simp
    rw [hostsIn, Text.lineChars_eq_singleton hline hne, List.reverse_nil, List.nil_append,
      List.filterMap_cons]
    cases hostChars? (c :: cs) with
    | none => rfl
    | some host => rfl

/-- Lines that end before a text have their hosts, and the text has its own. -/
theorem hostsIn_append {cs : List Char} (h : cs = [] ∨ cs.getLast? = some '\n')
    (ds : List Char) : hostsIn (cs ++ ds) = hostsIn cs ++ hostsIn ds := by
  rw [hostsIn, Text.lineChars_append h, List.filterMap_append, hostsIn, hostsIn]

end Lines

/-! ## Comments -/

/-- A text cut at one of its lines: what stands before the line, its characters, its end, and what
stands after it.  Only the last line may lack an end. -/
structure Place where
  before : List Char
  line : List Char
  ending : List Char
  after : List Char
  starts : before = [] ∨ before.getLast? = some '\n'
  whole : '\n' ∉ line
  ends : ending = ['\n'] ∨ ending = ['\r', '\n'] ∨ ending = [] ∧ after = []

namespace Place

variable (p : Place)

def text : String := String.ofList (p.before ++ (p.line ++ (p.ending ++ p.after)))

/-- The text with a comment at the end of the line, after a blank. -/
def commented (b : Char) (comment : List Char) : String :=
  String.ofList (p.before ++ (p.line ++ b :: '#' :: comment ++ (p.ending ++ p.after)))

/-- The place of the line under one line more. -/
def below (upper : List Char) : Place where
  before := upper ++ '\n' :: p.before
  line := p.line
  ending := p.ending
  after := p.after
  starts := by
    rcases p.starts with hstart | hstart
    · simp [hstart]
    · simp [List.getLast?_append, List.getLast?_cons, hstart]
  whole := p.whole
  ends := p.ends

theorem text_below {upper cs : List Char} (h : p.text = String.ofList cs) :
    (p.below upper).text = String.ofList (upper ++ '\n' :: cs) := by
  rw [← String.ofList_injective h, text, below, List.append_assoc, List.cons_append]

/-- The first of several lines has a place. -/
theorem exists_first {xs : List Char} (hxs : '\n' ∉ dropReturn xs) (ys : List Char) :
    ∃ p : Place, p.text = String.ofList (xs ++ '\n' :: ys) ∧ p.line = dropReturn xs ∧
      p.before = [] := by
  obtain ⟨ending, hcut, hends⟩ := Text.exists_ending xs
  refine ⟨⟨[], dropReturn xs, ending, ys, Or.inl rfl, hxs, hends.imp_right Or.inl⟩, ?_, rfl, rfl⟩
  rw [text, List.nil_append, ← List.append_assoc, ← hcut, List.append_assoc, List.singleton_append]

/-- The one line without a line feed has a place. -/
theorem exists_only {cs : List Char} (hcs : '\n' ∉ cs) :
    ∃ p : Place, p.text = String.ofList cs ∧ p.line = cs ∧ p.before = [] := by
  refine ⟨⟨[], cs, [], [], Or.inl rfl, hcs, Or.inr (Or.inr ⟨rfl, rfl⟩)⟩, ?_, rfl, rfl⟩
  rw [text, List.nil_append, List.append_nil, List.append_nil]

/-- Every line of a text has a place in it, under as many lines as are before it. -/
theorem exists_of_line {cs line : List Char} {i : Nat} (h : (lineChars cs [])[i]? = some line) :
    ∃ p : Place, p.text = String.ofList cs ∧ p.line = line ∧
      (lineChars p.before []).length = i := by
  have hline : '\n' ∉ line :=
    Text.newline_not_mem_lineChars List.not_mem_nil (List.mem_of_getElem? h)
  -- the text gets shorter by its first line, as long as there is a line feed
  induction hlength : cs.length using Nat.strong_induction_on generalizing cs i with
  | _ n ih =>
  by_cases hfeed : '\n' ∈ cs
  · obtain ⟨xs, ys, rfl, hxs⟩ := List.eq_append_cons_of_mem hfeed
    rw [Text.lineChars_newline hxs, List.reverse_nil, List.nil_append] at h
    cases i with
    | zero =>
      obtain rfl := Option.some.inj h
      obtain ⟨p, htext, hfirst, hbefore⟩ := exists_first hline ys
      exact ⟨p, htext, hfirst, by rw [hbefore]; rfl⟩
    | succ i =>
      rw [List.getElem?_cons_succ] at h
      have hshorter : ys.length < n := by
        rw [← hlength, List.length_append, List.length_cons]
        omega
      obtain ⟨p, htext, hlower, hcount⟩ := ih ys.length hshorter h rfl
      refine ⟨p.below xs, p.text_below htext, hlower, ?_⟩
      rw [below, Text.lineChars_newline hxs, List.length_cons, hcount]
  · cases cs with
    | nil => cases h
    | cons c cs =>
      have hne : ([] : List Char).reverse ++ c :: cs ≠ [] := by simp
      rw [Text.lineChars_eq_singleton hfeed hne, List.getElem?_singleton] at h
      obtain ⟨hi, hwhole⟩ := Option.ite_none_right_eq_some.mp h
      obtain rfl := Option.some.inj hwhole
      obtain ⟨p, htext, honly, hbefore⟩ := exists_only hfeed
      exact ⟨p, htext, honly, by rw [hbefore, hi]; rfl⟩

/-- Whatever stands in the place of the line has its host, and the other lines have theirs. -/
theorem hostsIn_line {line : List Char} (hline : '\n' ∉ line) :
    hostsIn (line ++ (p.ending ++ p.after)) = (hostChars? line).toList ++ hostsIn p.after := by
  rcases p.ends with hend | hend | ⟨hend, hafter⟩
  · rw [hend, List.singleton_append, hostsIn_newline hline]
  · have hreturn : '\n' ∉ line ++ ['\r'] := by simp [hline]
    have hsplit : line ++ (p.ending ++ p.after) = line ++ ['\r'] ++ '\n' :: p.after := by
      simp [hend]
    rw [hsplit, hostsIn_newline hreturn, hostChars?_append_blank (by decide)]
  · rw [hend, hafter, List.append_nil, List.append_nil, hostsIn_last hline]
    exact (List.append_nil _).symm

theorem hosts_text :
    hosts p.text =
      (hostsIn p.before ++ ((hostChars? p.line).toList ++ hostsIn p.after)).map String.ofList := by
  rw [text, hosts_ofList, hostsIn_append p.starts, p.hostsIn_line p.whole]

variable {p} {b : Char} {comment : List Char}

/-- After a line feed, the comment is a line of its own and has no host. -/
theorem hosts_commented_newline (hcomment : '\n' ∉ comment) :
    hosts (p.commented '\n' comment) = hosts p.text := by
  have hsign : '\n' ∉ '#' :: comment := by simp [hcomment]
  have hsplit : p.line ++ '\n' :: '#' :: comment ++ (p.ending ++ p.after) =
      p.line ++ '\n' :: ('#' :: comment ++ (p.ending ++ p.after)) := by simp
  rw [commented, hosts_ofList, hostsIn_append p.starts, hsplit, hostsIn_newline p.whole,
    p.hostsIn_line hsign, hostChars?_comment, hosts_text]
  rfl

/-- After any other blank, it belongs to the line. -/
theorem hosts_commented (hb : b ≠ '\n') (hcomment : '\n' ∉ comment) :
    hosts (p.commented b comment) =
      (hostsIn p.before ++ ((hostChars? (p.line ++ b :: '#' :: comment)).toList ++
        hostsIn p.after)).map String.ofList := by
  have hline : '\n' ∉ p.line ++ b :: '#' :: comment := by simp [p.whole, Ne.symm hb, hcomment]
  rw [commented, hosts_ofList, hostsIn_append p.starts, p.hostsIn_line hline]

/-- A comment at the end of a line, after a blank, leaves the hosts of a text as they are just if
the blank is a line feed, which puts the comment on a line of its own, or the line has not one field
alone, other than a comment. -/
theorem hosts_commented_iff (p : Place) (hb : isBlank b = true) (hcomment : '\n' ∉ comment) :
    hosts (p.commented b comment) = hosts p.text ↔ b = '\n' ∨ ¬ LoneField p.line := by
  by_cases hfeed : b = '\n'
  · subst hfeed
    exact iff_of_true (hosts_commented_newline hcomment) (Or.inl rfl)
  · have hinj : Function.Injective (List.map String.ofList) :=
      List.map_injective_iff.mpr fun _ _ => String.ofList_injective
    have htoList : ∀ {o o' : Option (List Char)}, o.toList = o'.toList ↔ o = o' := by
      intro o o'
      cases o <;> cases o' <;> simp
    rw [or_iff_right hfeed, hosts_commented hfeed hcomment, hosts_text, hinj.eq_iff,
      List.append_cancel_left_eq, List.append_cancel_right_eq, htoList,
      hostChars?_commented_iff hb]

end Place

/-- A text of three lines, cut at the second one. -/
def secondOfThree : Place where
  before := "# ads\n".toList
  line := "0.0.0.0 ads.test".toList
  ending := "\r\n".toList
  after := "plain\n".toList
  starts := by decide
  whole := by decide
  ends := by decide

theorem secondOfThree_commented :
    isBlank '\t' = true ∧ '\n' ∉ "all of it".toList ∧
      secondOfThree.text = "# ads\n0.0.0.0 ads.test\r\nplain\n" ∧
      hosts (secondOfThree.commented '\t' "all of it".toList) = hosts secondOfThree.text := by
  have hblank : isBlank '\t' = true := by decide
  have hcomment : '\n' ∉ "all of it".toList := by decide
  refine ⟨hblank, hcomment, by decide, ?_⟩
  exact (Place.hosts_commented_iff secondOfThree hblank hcomment).mpr (Or.inr (by decide))

/-- A text of one line with one field. -/
def loneLine : Place where
  before := []
  line := "plain".toList
  ending := ['\n']
  after := []
  starts := by decide
  whole := by decide
  ends := by decide

/-- The text has no host, and a comment adds one. -/
theorem comment_adds_host :
    isBlank ' ' = true ∧ '\n' ∉ " note".toList ∧ loneLine.text = "plain\n" ∧
      hosts loneLine.text = [] ∧ loneLine.commented ' ' " note".toList = "plain # note\n" ∧
      hosts (loneLine.commented ' ' " note".toList) = ["#"] := by
  decide

end DnsGate.Blocklist
