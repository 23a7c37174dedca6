/-!
Points in time as text.

A point in time is a number of nanoseconds since the start of 1970, and is written as date, `T`, time of
day and offset. The date comes from counting whole cycles of 400, 100, 4 and 1 years from a first of
March, so the leap day, if there is one, is the last day of its year.
-/

namespace SourceJar.Timestamp

/-- The nanoseconds of a second. -/
def second : Nat := 1000000000

/-- The seconds of a day. -/
def secondsPerDay : Nat := 86400

/-- A date. -/
structure Date where
  year : Nat
  month : Nat
  day : Nat
  deriving DecidableEq, Repr

/-- The days from the first of March of the year 0 to the start of 1970. -/
def daysBefore1970 : Nat := 719468

/-- The date so many days after the start of 1970. -/
def dateOf (days : Nat) : Date :=
  let days := days + daysBefore1970
  let cycle := days / 146097
  let inCycle := days % 146097
  let yearOfCycle := (inCycle - inCycle / 1460 + inCycle / 36524 - inCycle / 146096) / 365
  let inYear := inCycle - (365 * yearOfCycle + yearOfCycle / 4 - yearOfCycle / 100)
  let monthFromMarch := (5 * inYear + 2) / 153
  let month := if monthFromMarch < 10 then monthFromMarch + 3 else monthFromMarch - 9
  { year := cycle * 400 + yearOfCycle + (if month ≤ 2 then 1 else 0)
    month
    day := inYear - (153 * monthFromMarch + 2) / 5 + 1 }

/-- A number with at least so many digits. -/
def padded (width n : Nat) : String :=
  let digits := Nat.toDigits 10 n
  String.ofList (List.replicate (width - digits.length) '0' ++ digits)

/-- The part of a second: nothing, or three, six or nine digits, as many as it needs. -/
def fractionText (nanoseconds : Nat) : String :=
  if nanoseconds = 0 then ""
  else if nanoseconds % 1000000 = 0 then "." ++ padded 3 (nanoseconds / 1000000)
  else if nanoseconds % 1000 = 0 then "." ++ padded 6 (nanoseconds / 1000)
  else "." ++ padded 9 nanoseconds

/-- A point in time, with the text for the offset of universal time. -/
def text (nanoseconds : Nat) (offset : String) : String :=
  let seconds := nanoseconds / second
  let date := dateOf (seconds / secondsPerDay)
  let clock := seconds % secondsPerDay
  "-".intercalate [padded 4 date.year, padded 2 date.month, padded 2 date.day] ++ "T" ++
    ":".intercalate [padded 2 (clock / 3600), padded 2 (clock / 60 % 60), padded 2 (clock % 60)] ++
    fractionText (nanoseconds % second) ++ offset

/-- The offset of universal time in messages. -/
def messageOffset : String := "+00:00"

/-- The offset of universal time in reports. -/
def reportOffset : String := "Z"

end SourceJar.Timestamp
