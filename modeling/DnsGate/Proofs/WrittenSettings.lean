import DnsGate.Proofs.SheetEdits
import DnsGate.Settings.Render

/-!
Settings as a sheet, with one table for every part.  The sheet is legible (`legible_sheet`), and its
text is what is written where no settings file stands (`render_eq_text`).
-/

namespace DnsGate.Settings

/-! ## Values -/

/-- The value of a setting. -/
inductive Value where
  | text (s : String)
  | texts (ss : List String)
  | integer (n : Int)
  | boolean (b : Bool)

namespace Value

/-- A value as it is written. -/
def written : Value → String
  | text s => textValue s
  | texts ss => textsValue ss
  | integer n => integerValue n
  | boolean b => booleanValue b

/-- The scalar of a text, after some blanks. -/
def textNode (spacing : Toml.Spacing) (s : String) : Toml.Node :=
  .scalar spacing (Toml.quote s) (.text s)

/-- Several texts have a line each. -/
def textsNode : List String → Toml.Node
  | [] => .array {} [] false []
  | [s] => .array {} [textNode {} s] false []
  | ss => .array {} (ss.map (textNode ⟨some "\n    ".toList, none⟩)) true ['\n']

def node : Value → Toml.Node
  | text s => textNode {} s
  | texts ss => textsNode ss
  | integer n => .scalar {} (integerValue n).toList (.integer n)
  | boolean b => .scalar {} (booleanValue b).toList (.boolean b)

end Value

/-! ## Parts -/

/-- A table with the values of its keys. -/
abbrev Part := String × List (String × Value)

/-- A value that is there. -/
def optionalValue (key : String) (value : Option String) : List (String × Value) :=
  (value.map fun s => (key, Value.text s)).toList

/-- The tables of a settings file. -/
def parts (s : Settings) : List Part := [
  ("server", ("listen", .texts s.server.listen) :: optionalValue "api_listen" s.server.api),
  ("logging", [("level", .text s.logging.level)]),
  ("dns", [("upstream_servers", .texts s.forwarding.servers),
    ("timeout_secs", .integer s.forwarding.timeout)]),
  ("ipset", optionalValue "ipv4_name" s.ipSets.ipv4 ++ optionalValue "ipv6_name" s.ipSets.ipv6
    ++ [("default_timeout_secs", .integer s.ipSets.timeout)]),
  ("rules", [("domains", .texts s.rules.domains), ("suffixes", .texts s.rules.suffixes)]),
  ("blocklist", [("enabled", .boolean s.blocking.enabled), ("urls", .texts s.blocking.sources),
    ("refresh_hours", .integer s.blocking.refreshHours)])]

/-- The entries of a table. -/
def entriesOf (pairs : List (String × Value)) : Toml.Entries :=
  pairs.map fun (key, value) => (Toml.Key.plain key, value.node)

/-- The table of a part. -/
def Part.table (p : Part) : Toml.Table := ⟨.plain p.1, {}, entriesOf p.2⟩

/-- The settings as a sheet. -/
def sheet (s : Settings) : Toml.Sheet where
  tables := s.parts.map Part.table
  closing := []

/-- A part as it is written. -/
def Part.text (p : Part) : String := tableText p.1 (p.2.map fun (key, value) => (key, value.written))

theorem render_eq (s : Settings) : s.render = "\n".intercalate (s.parts.map Part.text) := by
  have hoptional (key : String) (value : Option String) :
      (optionalValue key value).map (fun (key, value) => (key, value.written)) =
        optionalPair key value := by
    cases value <;> rfl
  simp only [render, parts, List.map_cons, List.map_nil, Part.text, List.map_append, hoptional]
  rfl

/-! ## Printing -/

namespace Value

/-- Where a line ends belongs to the text before it or to the one after it. -/
theorem flatMap_lines (line : String → List Char) (ss : List String) :
    '\n' :: ss.flatMap (fun s => line s ++ ['\n']) =
      ss.flatMap (fun s => '\n' :: line s) ++ ['\n'] := by
  induction ss with
  | nil => rfl
  | cons s ss ih =>
    rw [List.flatMap_cons, List.flatMap_cons, List.append_assoc, List.append_assoc, ← ih]
    rfl

/-- The lines of a list, each with its comma. -/
theorem itemsText_lines (usual : Toml.Usual) (husual : usual.2 = []) (s : String)
    (ss : List String) :
    Toml.Node.itemsText usual ((s :: ss).map (textNode ⟨some "\n    ".toList, none⟩)) ++ [','] =
      (s :: ss).flatMap fun s => '\n' :: ("    ".toList ++ Toml.quote s ++ [',']) := by
  induction ss generalizing s usual with
  | nil => simp [Toml.Node.itemsText, textNode, Toml.Node.text, Toml.Spacing.around, husual]
  | cons next ss ih =>
    have hrest := ih Toml.valueUsual rfl next
    rw [List.map_cons, Toml.Node.itemsText, List.append_assoc, hrest, List.flatMap_cons]
    simp [textNode, Toml.Node.text, Toml.Spacing.around, husual]

theorem text_textsNode (ss : List String) :
    (textsNode ss).text Toml.valueUsual = ' ' :: (textsValue ss).toList := by
  match ss with
  | [] =>
    simp [textsNode, textsValue, Toml.Node.text, Toml.Node.itemsText, Toml.Spacing.around,
      Toml.valueUsual]
  | [s] =>
    simp [textsNode, textNode, textsValue, textValue, Toml.Node.text, Toml.Node.itemsText,
      Toml.Spacing.around, Toml.valueUsual, Toml.firstItemUsual]
  | s :: next :: ss =>
    have hvalue : (textsValue (s :: next :: ss)).toList =
        '[' :: '\n' :: (s :: next :: ss).flatMap (fun s => "    ".toList ++ Toml.quote s ++ [',']
          ++ ['\n']) ++ [']'] := by
      simp [textsValue, textValue, List.flatMap_map]
    have hnode : (textsNode (s :: next :: ss)).text Toml.valueUsual =
        ' ' :: '[' :: (Toml.Node.itemsText Toml.firstItemUsual
          ((s :: next :: ss).map (textNode ⟨some "\n    ".toList, none⟩)) ++ [',']) ++
          ['\n', ']'] := by
      simp [textsNode, Toml.Node.text, Toml.Spacing.around, Toml.valueUsual]
    rw [hnode, hvalue, itemsText_lines _ rfl, flatMap_lines]
    simp

/-- The usual blank before a value is all that stands before it. -/
theorem text_node (v : Value) : v.node.text Toml.valueUsual = ' ' :: v.written.toList := by
  cases v with
  | texts ss => exact text_textsNode ss
  | text s => simp [node, textNode, written, textValue, Toml.Node.text, Toml.Spacing.around,
      Toml.valueUsual]
  | integer n => simp [node, written, Toml.Node.text, Toml.Spacing.around, Toml.valueUsual]
  | boolean b => simp [node, written, Toml.Node.text, Toml.Spacing.around, Toml.valueUsual]

end Value

/-! ## Legibility -/

theorem Value.legible_textsNode (depth : Nat) (ss : List String) :
    (textsNode ss).Legible (depth + 1) := by
  have hline : Toml.Trivia "\n    ".toList :=
    .blank (Or.inr rfl) (.blank (Or.inl rfl) (.blank (Or.inl rfl) (.blank (Or.inl rfl)
      (.blank (Or.inl rfl) .nil))))
  match ss with
  | [] => exact Toml.legible_ofTexts depth []
  | [s] => exact Toml.legible_ofTexts depth [s]
  | s :: next :: ss =>
    refine .array ?_ ?_ (.blank (Or.inr rfl) .nil) (fun h => by cases h) fun _ h => by cases h
    · intro n hn
      obtain ⟨s, -, rfl⟩ := List.mem_map.mp hn
      exact .scalar (Toml.spells_quote s)
    · intro n hn
      obtain ⟨s, -, rfl⟩ := List.mem_map.mp hn
      exact ⟨fun b hb => by cases hb; exact hline, fun a ha => by cases ha⟩

theorem Value.legible_node (v : Value) (depth : Nat) : v.node.Legible (depth + 1) := by
  cases v with
  | text s => exact .scalar (Toml.spells_quote s)
  | texts ss => exact legible_textsNode depth ss
  | integer n => exact .scalar (Toml.spells_integer n)
  | boolean b => exact .scalar (Toml.spells_boolean b)

theorem Value.spacing_node (v : Value) : v.node.spacing = {} := by
  cases v with
  | texts ss =>
    match ss with
    | [] | [_] | _ :: _ :: _ => rfl
  | _ => rfl

/-- The names of the tables and of the keys in them, given which of the settings are there that may
be nothing. -/
def partNames (api ipv4 ipv6 : Bool) : List (String × List String) := [
  ("server", "listen" :: if api then ["api_listen"] else []),
  ("logging", ["level"]),
  ("dns", ["upstream_servers", "timeout_secs"]),
  ("ipset", (if ipv4 then ["ipv4_name"] else []) ++ (if ipv6 then ["ipv6_name"] else []) ++
    ["default_timeout_secs"]),
  ("rules", ["domains", "suffixes"]),
  ("blocklist", ["enabled", "urls", "refresh_hours"])]

theorem names_parts (s : Settings) :
    s.parts.map (fun p => (p.1, p.2.map Prod.fst)) =
      partNames s.server.api.isSome s.ipSets.ipv4.isSome s.ipSets.ipv6.isSome := by
  unfold parts
  cases s.server.api <;> cases s.ipSets.ipv4 <;> cases s.ipSets.ipv6 <;> rfl

/-- No name needs quotes, and none stands twice. -/
theorem plain_partNames : ∀ api ipv4 ipv6, (∀ p ∈ partNames api ipv4 ipv6,
    Toml.PlainName p.1 ∧ (∀ key ∈ p.2, Toml.PlainName key) ∧ p.2.Nodup) ∧
      ((partNames api ipv4 ipv6).map Prod.fst).Nodup := by
  decide +kernel

theorem legible_sheet (s : Settings) : s.sheet.Legible where
  tables := by
    intro t ht
    obtain ⟨p, hp, rfl⟩ := List.mem_map.mp ht
    obtain ⟨hname, hkeys, hnodup⟩ :=
      (plain_partNames _ _ _).1 _ (names_parts s ▸ List.mem_map_of_mem hp)
    refine ⟨⟨rfl, rfl, rfl⟩, ⟨hname.legible {} {}, Toml.fits_default _ _, Toml.fits_default _ _⟩,
      ?_, ?_⟩
    · intro e he
      obtain ⟨⟨key, value⟩, hpair, rfl⟩ := List.mem_map.mp he
      have hkey := hkeys key (List.mem_map.mpr ⟨(key, value), hpair, rfl⟩)
      refine ⟨hkey.legible {} {}, Toml.fits_default _ _, value.legible_node 79, ?_⟩
      show value.node.spacing.Fits _ _
      rw [value.spacing_node]
      exact Toml.fits_default _ _
    · simpa [Part.table, entriesOf, Toml.Key.plain, Function.comp_def] using hnodup
  names := by
    have hnames := names_parts s ▸ (plain_partNames _ _ _).2
    simpa [sheet, Part.table, Toml.Key.plain, Function.comp_def] using hnames
  order := by
    have hplaces (ps : List Part) : Toml.InOrder 0 (ps.map Part.table) := by
      induction ps with
      | nil => trivial
      | cons p ps ih => exact ⟨le_rfl, ih⟩
    exact hplaces s.parts
  closing := rfl
  clean := List.not_mem_nil

/-! ## Text -/

theorem lines_entriesOf (pairs : List (String × Value)) :
    (entriesOf pairs).flatMap Toml.pairLine =
      pairs.flatMap fun p => p.1.toList ++ " = ".toList ++ p.2.written.toList ++ ['\n'] := by
  rw [entriesOf, List.flatMap_map]
  refine List.flatMap_congr fun p _ => ?_
  simp [Toml.pairLine, Value.text_node, Toml.keysText_one, Toml.Key.plain, Toml.Spacing.around,
    Toml.lineKeyUsual]

/-- The lines of a part, which an empty line precedes unless it is the first. -/
theorem Part.lines_table (p : Part) (first : Bool) :
    p.table.lines first = (if first then [] else ['\n']) ++ p.text.toList := by
  have hpairs := lines_entriesOf p.2
  simp [Toml.Table.lines, table, text, tableText, hpairs, Toml.headerText, Toml.headerUsual,
    Toml.headerKeyUsual, Toml.keysText_one, Toml.Key.plain, Toml.Spacing.around, List.flatMap_map]

theorem tablesLines_later (ps : List Part) :
    Toml.tablesLines false (ps.map Part.table) = ps.flatMap fun p => '\n' :: p.text.toList := by
  induction ps with
  | nil => rfl
  | cons p ps ih =>
    rw [List.map_cons, Toml.tablesLines, Part.lines_table, ih]
    rfl

theorem intercalate_cons (separator : List Char) (text : List Char) (texts : List (List Char)) :
    separator.intercalate (text :: texts) = text ++ texts.flatMap (separator ++ ·) := by
  induction texts generalizing text with
  | nil => simp [List.intercalate]
  | cons next texts ih =>
    rw [List.intercalate_cons_cons, ih, List.flatMap_cons, List.append_assoc, List.append_assoc]

theorem tablesLines_parts (p : Part) (ps : List Part) :
    Toml.tablesLines true ((p :: ps).map Part.table) =
      ("\n".intercalate ((p :: ps).map Part.text)).toList := by
  rw [List.map_cons, Toml.tablesLines, Part.lines_table, if_pos rfl, List.nil_append,
    tablesLines_later, String.toList_intercalate, List.map_cons, List.map_cons, intercalate_cons,
    List.map_map, List.flatMap_map]
  rfl

/-- The text that is written anew is that of a sheet. -/
theorem render_eq_text (s : Settings) : s.render = s.sheet.document.text := by
  rw [(legible_sheet s).text_eq, render_eq]
  show _ = String.ofList (Toml.tablesLines true (s.parts.map Part.table) ++ [])
  obtain ⟨p, ps, hps⟩ : ∃ p ps, s.parts = p :: ps := ⟨_, _, rfl⟩
  rw [List.append_nil, hps, tablesLines_parts, String.ofList_toList]

end DnsGate.Settings
