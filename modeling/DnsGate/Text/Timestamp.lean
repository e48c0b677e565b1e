import DnsGate.Text.Digits

/-!
Points in time as text: date, time of day and distance from UTC, as in
`2000-02-29T23:59:59+00:00`.  Time is counted in seconds from the start of 1970.
-/

namespace DnsGate.Text

/-- A day of the calendar. -/
structure Date where
  year : Int
  month : Nat
  day : Nat
deriving DecidableEq, Repr

/-- The date of a day, counted from the start of 1970.  Years are taken to start in March, so that
a leap day ends its year, and 400 years have 146097 days. -/
def Date.ofDay (day : Int) : Date :=
  let days := day + 719468
  let era := days.fdiv 146097
  let dayOfEra := (days.fmod 146097).toNat
  let yearOfEra := (dayOfEra - dayOfEra / 1460 + dayOfEra / 36524 - dayOfEra / 146096) / 365
  let dayOfYear := dayOfEra - (365 * yearOfEra + yearOfEra / 4 - yearOfEra / 100)
  let marchMonth := (5 * dayOfYear + 2) / 153
  let month := if marchMonth < 10 then marchMonth + 3 else marchMonth - 9
  { year := yearOfEra + era * 400 + (if month ≤ 2 then 1 else 0)
    month
    day := dayOfYear - (153 * marchMonth + 2) / 5 + 1 }

/-- A number with zeros in front up to a width. -/
def padded (width n : Nat) : String :=
  String.ofList (List.replicate (width - (decimal n).length) '0') ++ decimal n

/-- A year: four digits, and a sign when these do not do. -/
def yearText (year : Int) : String :=
  if 0 ≤ year ∧ year ≤ 9999 then padded 4 year.toNat
  else (if year < 0 then "-" else "+") ++ padded 4 year.natAbs

/-- The text of a point in time. -/
def timestamp (seconds : Int) : String :=
  let date := Date.ofDay (seconds.fdiv 86400)
  let time := (seconds.fmod 86400).toNat
  yearText date.year ++ "-" ++ padded 2 date.month ++ "-" ++ padded 2 date.day ++ "T" ++
    padded 2 (time / 3600) ++ ":" ++ padded 2 (time / 60 % 60) ++ ":" ++ padded 2 (time % 60) ++
    "+00:00"

end DnsGate.Text
