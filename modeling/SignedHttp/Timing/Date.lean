import SignedHttp.Text.Decimal

/-!
# Dates

The date and time of day of a number of seconds since 1970, in universal time and the
Gregorian calendar, which is continued to all years.

Years are counted from March, so that the day that comes and goes is the last one of
a year. The calendar then repeats after four hundred years, and within these the year
and the month follow by division.

A date whose year does not fit into 32 bits, counted from 1900, cannot be shown; what is
shown in its place is no date.

## Main definitions

* `Date`: A date and a time of day.
* `Date.ofUnixTime`: The date of a number of seconds.
* `Date.text`: The text of a number of seconds.
-/

namespace SignedHttp

/-- A date and a time of day. -/
structure Date where
  year : Int
  month : Nat
  day : Nat
  hour : Nat
  minute : Nat
  second : Nat
  deriving DecidableEq, Repr

namespace Date

/-- The days of four hundred years. -/
def cycleDays : Int := 146097

/-- The day of a number of days since 1970: year, month and day. -/
def ofDays (days : Int) : Int × Nat × Nat :=
  -- Days since the first of March of the year zero.
  let shifted := days + 719468
  let cycle := shifted / cycleDays
  let inCycle := (shifted % cycleDays).toNat
  let yearInCycle :=
    (inCycle - inCycle / 1460 + inCycle / 36524 - inCycle / 146096) / 365
  let inYear := inCycle - (365 * yearInCycle + yearInCycle / 4 - yearInCycle / 100)
  -- Five months from March on have 153 days, and so have the five after them.
  let fromMarch := (5 * inYear + 2) / 153
  let day := inYear - (153 * fromMarch + 2) / 5 + 1
  let month := if fromMarch < 10 then fromMarch + 3 else fromMarch - 9
  let year : Int := cycle * 400 + yearInCycle
  (if month ≤ 2 then year + 1 else year, month, day)

/-- The date of a number of seconds since 1970. -/
def ofUnixTime (t : Int) : Date :=
  let (year, month, day) := ofDays (t / 86400)
  let inDay := (t % 86400).toNat
  { year, month, day, hour := inDay / 3600, minute := inDay / 60 % 60, second := inDay % 60 }

/-- The date with the day of the month and the time of day in two digits each. -/
def render (d : Date) : Bytes :=
  Decimal.ofInt d.year ++ "-" ++ Decimal.padded 2 d.month ++ "-" ++ Decimal.padded 2 d.day
    ++ " " ++ Decimal.padded 2 d.hour ++ ":" ++ Decimal.padded 2 d.minute
    ++ ":" ++ Decimal.padded 2 d.second ++ " UTC"

/-- Can the year be shown? -/
def isShown (d : Date) : Bool := IntKind.int32.contains (d.year - 1900)

/-- The text of a number of seconds since 1970. -/
def text (t : Int) : Bytes :=
  let d := ofUnixTime t
  render (if d.isShown then d else ⟨1900, 1, 0, 0, 0, 0⟩)

end Date

end SignedHttp
