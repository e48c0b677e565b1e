import DnsGate.Toml.Document
import DnsGate.Toml.Style

/-!
Editing documents: a list of texts is put under a key of a table of the root, and nothing else
changes.
-/

namespace DnsGate.Toml

/-- A list of texts with the usual spacing. -/
def Node.ofTexts (texts : List String) : Node :=
  .array {} (texts.map fun s => .scalar {} (quote s) (.text s)) false []

namespace Document

/-- Puts a list of texts under a key of a table, which is made at the end if it is missing; `none`
if something else stands there. -/
def putTexts? (d : Document) (table key : String) (texts : List String) : Option Document :=
  match d.root.find? table with
  | none =>
    some { d with
      root := d.root ++ [(.plain table, .table {} (Entries.put key (.ofTexts texts) []))] }
  | some _ =>
    (d.root.modify? table fun
      | .table style es => some (.table style (Entries.put key (.ofTexts texts) es))
      | _ => none).map fun root => { d with root }

end Document

end DnsGate.Toml
