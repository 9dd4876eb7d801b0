/-!
# The calendar

Days are counted from the first day of 1970, in the calendar with leap years every four years,
but for centuries that 400 does not divide.

* `Calendar.Date`: year, month and day.
* `Calendar.dateOfDay`, `Calendar.dayOfDate`: the date of a day, and the day of a date.
* `Calendar.weekday`: days of the week count from 1, a Sunday, to 7.
-/

namespace Pipeline

namespace Calendar

/-- A day by its year, month and day of the month. -/
structure Date where
  year : Int
  month : Nat
  day : Nat
  deriving DecidableEq, Repr, Inhabited

/-- Whether a year has a 29th of February. -/
def isLeap (year : Int) : Bool := year % 4 == 0 && (year % 100 != 0 || year % 400 == 0)

/-- How many days a month has. -/
def daysInMonth (year : Int) (month : Nat) : Nat :=
  if month = 2 then if isLeap year then 29 else 28
  else if month = 4 ∨ month = 6 ∨ month = 9 ∨ month = 11 then 30
  else 31

/-- Whether there is such a day. -/
def Date.isValid (d : Date) : Bool :=
  1 ≤ d.month && d.month ≤ 12 && 1 ≤ d.day && d.day ≤ daysInMonth d.year d.month

/-- How many days lie between the first of March of the year zero and the first day of 1970. -/
def epochShift : Int := 719468

/-- How many days four centuries have. -/
def daysPerEra : Int := 146097

/-- The date of a day. Years are taken to begin in March, so that a leap day ends one: a month is
then found from the day of the year by one division. -/
def dateOfDay (day : Int) : Date :=
  let shifted := day + epochShift
  let era := shifted / daysPerEra
  let dayOfEra := (shifted % daysPerEra).toNat
  let yearOfEra := (dayOfEra - dayOfEra / 1460 + dayOfEra / 36524 - dayOfEra / 146096) / 365
  let dayOfYear := dayOfEra - (365 * yearOfEra + yearOfEra / 4 - yearOfEra / 100)
  let march := (5 * dayOfYear + 2) / 153
  let month := if march < 10 then march + 3 else march - 9
  let year : Int := yearOfEra + era * 400
  ⟨if month ≤ 2 then year + 1 else year, month, dayOfYear - (153 * march + 2) / 5 + 1⟩

/-- The day of a date. -/
def dayOfDate (d : Date) : Int :=
  let year := if d.month ≤ 2 then d.year - 1 else d.year
  let era := year / 400
  let yearOfEra := (year % 400).toNat
  let march := if d.month > 2 then d.month - 3 else d.month + 9
  let dayOfYear := (153 * march + 2) / 5 + d.day - 1
  let dayOfEra := yearOfEra * 365 + yearOfEra / 4 - yearOfEra / 100 + dayOfYear
  era * daysPerEra + dayOfEra - epochShift

/-- The day of the week, from 1, a Sunday, to 7. -/
def weekday (day : Int) : Nat := ((day + 4) % 7).toNat + 1

/-- How many seconds a day has. -/
def daySeconds : Nat := 86400

end Calendar

end Pipeline
