/-!
Lines of a text.  A line ends at a line feed, and the carriage return right before that line feed
belongs to the line end.  Text after the last line feed is a line of its own unless it is empty.
-/

namespace DnsGate.Text

/-- Removes the carriage return at the end, if there is one. -/
def dropReturn (cs : List Char) : List Char :=
  if cs.getLast? = some '\r' then cs.dropLast else cs

/-- The lines of a text, on characters. -/
def lineChars : List Char → List Char → List (List Char)
  | [], [] => []
  | [], held => [held.reverse]
  | c :: cs, held =>
    if c = '\n' then dropReturn held.reverse :: lineChars cs [] else lineChars cs (c :: held)

/-- The lines of a text. -/
def lines (s : String) : List String := (lineChars s.toList []).map String.ofList

end DnsGate.Text
