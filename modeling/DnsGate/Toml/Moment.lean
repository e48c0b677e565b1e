import DnsGate.Text.Digits

/-!
Dates and times of settings files: a date, a time of day, or both with or without a distance from
UTC.  Seconds may be left out, and a minute may have a leap second.
-/

namespace DnsGate.Toml

/-- The number that the first `n` characters write, all of them digits. -/
def fixedDigits? (n : Nat) (cs : List Char) : Option (Nat × List Char) :=
  if (cs.take n).length = n then (Text.readNat? 10 (cs.take n)).map (·, cs.drop n) else none

/-- The rest after one of some characters. -/
def skipOne? (p : Char → Bool) : List Char → Option (List Char)
  | [] => none
  | c :: cs => if p c then some cs else none

/-- How many days a month has. -/
def monthLength (year month : Nat) : Nat :=
  if month = 2 then
    if year % 4 = 0 ∧ (year % 100 ≠ 0 ∨ year % 400 = 0) then 29 else 28
  else if month = 4 ∨ month = 6 ∨ month = 9 ∨ month = 11 then 30
  else 31

/-- The rest after a date of the calendar. -/
def afterDate? (cs : List Char) : Option (List Char) := do
  let (year, cs) ← fixedDigits? 4 cs
  let (month, cs) ← fixedDigits? 2 (← skipOne? (· == '-') cs)
  let (day, cs) ← fixedDigits? 2 (← skipOne? (· == '-') cs)
  if 1 ≤ month ∧ month ≤ 12 ∧ 1 ≤ day ∧ day ≤ monthLength year month then some cs else none

/-- The rest after the part of a second, if there is one. -/
def afterFraction? : List Char → Option (List Char)
  | '.' :: cs =>
    if (cs.takeWhile Char.isDigit).isEmpty then none else some (cs.dropWhile Char.isDigit)
  | cs => some cs

/-- The rest after a time of day. -/
def afterTime? (cs : List Char) : Option (List Char) := do
  let (hour, cs) ← fixedDigits? 2 cs
  let (minute, cs) ← fixedDigits? 2 (← skipOne? (· == ':') cs)
  if 23 < hour ∨ 59 < minute then none
  match cs with
  | ':' :: cs => do
    let (second, cs) ← fixedDigits? 2 cs
    if 60 < second then none
    afterFraction? cs
  | cs => some cs

/-- Whether a text is nothing or a distance from UTC. -/
def isOffset : List Char → Bool
  | [] => true
  | c :: cs =>
    if c = 'Z' ∨ c = 'z' then cs.isEmpty
    else if c = '+' ∨ c = '-' then
      match fixedDigits? 2 cs with
      | some (hours, ':' :: cs) =>
        match fixedDigits? 2 cs with
        | some (minutes, []) => decide (hours ≤ 23 ∧ minutes ≤ 59)
        | _ => false
      | _ => false
    else false

/-- Whether a whole text writes a date, a time, or both. -/
def isMoment (cs : List Char) : Bool :=
  match afterDate? cs with
  | some [] => true
  | some (c :: rest) =>
    (c == 'T' || c == 't' || c == ' ') && (afterTime? rest).any isOffset
  | none => (afterTime? cs).any List.isEmpty

end DnsGate.Toml
