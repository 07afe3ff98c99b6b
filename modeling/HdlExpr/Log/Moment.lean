/-!
# Moments and durations

The text of points in time, given in seconds of the Unix epoch in universal time, and of spans of
time, given in nanoseconds.
-/

namespace HdlExpr.Log

/-- A day of the calendar with the second of the day. -/
structure Moment where
  year : Int
  month : Nat
  day : Nat
  second : Nat
  deriving DecidableEq, Repr

namespace Moment

/-- The calendar date of a number of days after 1970-01-01.  Years run from March, so that a leap
day is the last of its year. -/
def ofDays (days : Int) : Int × Nat × Nat :=
  let z := days + 719468
  let era := z.fdiv 146097
  let dayOfEra := (z - era * 146097).toNat
  let yearOfEra :=
    (dayOfEra - dayOfEra / 1460 + dayOfEra / 36524 - dayOfEra / 146096) / 365
  let dayOfYear := dayOfEra - (365 * yearOfEra + yearOfEra / 4 - yearOfEra / 100)
  let shifted := (5 * dayOfYear + 2) / 153
  let day := dayOfYear - (153 * shifted + 2) / 5 + 1
  let month := if shifted < 10 then shifted + 3 else shifted - 9
  (yearOfEra + era * 400 + (if month ≤ 2 then 1 else 0), month, day)

def ofUnix (seconds : Int) : Moment :=
  let (year, month, day) := ofDays (seconds.fdiv 86400)
  ⟨year, month, day, (seconds.fmod 86400).toNat⟩

/-- A number with zeros in front. -/
def padded (width : Nat) (n : Nat) : String :=
  let digits := Nat.toDigits 10 n
  String.ofList (List.replicate (width - digits.length) '0' ++ digits)

def date (m : Moment) : String :=
  (if m.year < 0 then "-" else "") ++ padded 4 m.year.natAbs ++ "-" ++ padded 2 m.month ++ "-" ++
    padded 2 m.day

def clock (m : Moment) : String :=
  padded 2 (m.second / 3600) ++ ":" ++ padded 2 (m.second / 60 % 60) ++ ":" ++
    padded 2 (m.second % 60)

/-- `2006-01-02T15:04:05Z` -/
def internet (m : Moment) : String := m.date ++ "T" ++ m.clock ++ "Z"

/-- `2006-01-02T15:04:05.000Z`: ten-thousandths of a second, of which there is one, without the
character in the twenty-fourth place.  In a year of four digits that is the last digit. -/
def internetMillis (m : Moment) : String :=
  let text := m.date ++ "T" ++ m.clock ++ ".0001Z"
  String.ofList (text.toList.eraseIdx 23)

/-- Whether the year has at most four digits and is not before year zero. -/
def isCommon (m : Moment) : Bool := 0 ≤ m.year && m.year < 10000

/-- `2006-01-02 15:04:05 +0000 UTC` -/
def plain (m : Moment) : String := m.date ++ " " ++ m.clock ++ " +0000 UTC"

end Moment

namespace Duration

/-- `n / Nat.pow 10 places` without trailing zeros. -/
def fraction (n places : Nat) : String :=
  let whole := toString (n / Nat.pow 10 places)
  let digits := (Moment.padded places (n % Nat.pow 10 places)).toList
  match (digits.reverse.dropWhile (· == '0')).reverse with
  | [] => whole
  | kept => whole ++ "." ++ String.ofList kept

/-- The text of a positive span. -/
def magnitude (n : Nat) : String :=
  if n < 1000 then toString n ++ "ns"
  else if n < 1000000 then fraction n 3 ++ "µs"
  else if n < 1000000000 then fraction n 6 ++ "ms"
  else
    let seconds := fraction (n % 60000000000) 9 ++ "s"
    let minutes := n / 60000000000
    if minutes = 0 then seconds
    else if minutes < 60 then toString minutes ++ "m" ++ seconds
    else toString (minutes / 60) ++ "h" ++ toString (minutes % 60) ++ "m" ++ seconds

/-- The text of a span of nanoseconds: one unit below a second, otherwise hours, minutes and
seconds. -/
def text (nanoseconds : Int) : String :=
  if nanoseconds = 0 then "0s"
  else if nanoseconds < 0 then "-" ++ magnitude nanoseconds.natAbs
  else magnitude nanoseconds.toNat

end Duration

end HdlExpr.Log
