import Pipeline.Cron.Field
import Pipeline.Calendar

/-!
# Cron schedules

A schedule fires at every second of which the second, minute, hour, day of the month, month, day
of the week and year all are among the values of their fields. Times are seconds since the
start of 1970, in universal time.

* `Cron.Schedule`: the values of each field, ascending.
* `Cron.Schedule.ofText`: reads an expression.
* `Cron.Schedule.firesAt`: whether a schedule fires at a second.
* `Cron.Schedule.next?`, `Cron.Schedule.times`: the first second, and the first few, from a given
  one on at which a schedule fires.
-/

namespace Pipeline

namespace Cron

/-- The values of each field, ascending. -/
structure Schedule where
  seconds : List Nat
  minutes : List Nat
  hours : List Nat
  daysOfMonth : List Nat
  months : List Nat
  daysOfWeek : List Nat
  years : List Nat
  deriving DecidableEq, Repr, Inhabited

namespace Schedule

/-! ## Reading -/

/-- Reads the years, which may be missing. -/
def yearsField (ts : List Token) : Except Error (List Nat) :=
  match Unit.year.field ts with
  | .ok (years, []) => .ok years
  | .ok (_, _ :: _) => .error .malformed
  | .error _ => if ts.isEmpty then .ok Unit.year.all else .error .malformed

/-- Reads six or seven fields. -/
def ofFields (ts : List Token) : Except Error Schedule := do
  let (seconds, ts) ← Unit.second.field ts
  let (minutes, ts) ← Unit.minute.field ts
  let (hours, ts) ← Unit.hour.field ts
  let (daysOfMonth, ts) ← Unit.dayOfMonth.field ts
  let (months, ts) ← Unit.month.field ts
  let (daysOfWeek, ts) ← Unit.dayOfWeek.field ts
  let years ← yearsField ts
  .ok { seconds, minutes, hours, daysOfMonth, months, daysOfWeek, years }

/-- The schedule that fires at the start of every hour. -/
def hourly : Schedule :=
  ⟨[0], [0], Unit.hour.all, Unit.dayOfMonth.all, Unit.month.all, Unit.dayOfWeek.all,
    Unit.year.all⟩

/-- The schedule that fires at the start of every day. -/
def daily : Schedule := { hourly with hours := [0] }

/-- The schedules that have a name. -/
def shorthands : List (String × Schedule) :=
  [("yearly", { daily with daysOfMonth := [1], months := [1] }),
   ("monthly", { daily with daysOfMonth := [1] }),
   ("weekly", { daily with daysOfWeek := [1] }),
   ("daily", daily),
   ("hourly", hourly)]

/-- Reads the name of a schedule, with gaps around it. -/
def shorthand? (ts : List Token) : Option Schedule :=
  match skipGap ts with
  | .sign '@' :: .name letters :: rest =>
    if (skipGap rest).isEmpty then shorthands.lookup (String.ofList letters) else none
  | _ => none

/-- The schedule that the words of an expression stand for. -/
def ofTokens (ts : List Token) : Except Error Schedule :=
  match shorthand? ts with
  | some s => .ok s
  | none => ofFields ts

/-- Reads an expression. -/
def ofText (s : String) : Except Error Schedule := ofTokens (tokens s)

/-! ## Times -/

/-- Whether a schedule fires on a day. -/
def firesOn (s : Schedule) (day : Nat) : Bool :=
  let date := Calendar.dateOfDay day
  s.daysOfMonth.contains date.day && s.months.contains date.month &&
    s.daysOfWeek.contains (Calendar.weekday day) && s.years.contains date.year.toNat

/-- Whether a schedule fires at a second of a day on which it fires. -/
def firesAtTime (s : Schedule) (time : Nat) : Bool :=
  s.hours.contains (time / 3600) && s.minutes.contains (time / 60 % 60) &&
    s.seconds.contains (time % 60)

/-- Whether a schedule fires at a second. -/
def firesAt (s : Schedule) (t : Nat) : Bool :=
  s.firesOn (t / Calendar.daySeconds) && s.firesAtTime (t % Calendar.daySeconds)

/-- The first value that is not less than `n`. -/
def firstFrom? (n : Nat) (values : List Nat) : Option Nat := values.find? (n ≤ ·)

/-- The first second of an hour, from a minute and second of it on, at which the schedule
fires. -/
def timeInHour? (s : Schedule) (minute second : Nat) : Option Nat :=
  let later? := do
    let m ← firstFrom? (minute + 1) s.minutes
    let x ← s.seconds.head?
    some (m * 60 + x)
  if s.minutes.contains minute then
    match firstFrom? second s.seconds with
    | some x => some (minute * 60 + x)
    | none => later?
  else later?

/-- The first second of a day, from a time on, at which the schedule fires if it does so on that
day. -/
def timeInDay? (s : Schedule) (time : Nat) : Option Nat :=
  let hour := time / 3600
  let later? := do
    let h ← firstFrom? (hour + 1) s.hours
    let m ← s.minutes.head?
    let x ← s.seconds.head?
    some (h * 3600 + m * 60 + x)
  if s.hours.contains hour then
    match s.timeInHour? (time / 60 % 60) (time % 60) with
    | some t => some (hour * 3600 + t)
    | none => later?
  else later?

/-- The first second at which a schedule fires, from a time of a day on, within `days` days. -/
def search? (s : Schedule) : Nat → Nat → Nat → Option Nat
  | 0, _, _ => none
  | days + 1, day, time =>
    let found? := if s.firesOn day then s.timeInDay? time else none
    match found? with
    | some t => some (day * Calendar.daySeconds + t)
    | none => search? s days (day + 1) 0

/-- The number of days before the end of the last year in which a schedule may fire. -/
def lastDay : Nat := (Calendar.dayOfDate ⟨2101, 1, 1⟩).toNat

/-- The first second from `t` on at which a schedule fires. -/
def next? (s : Schedule) (t : Nat) : Option Nat :=
  let day := t / Calendar.daySeconds
  s.search? (lastDay - day) day (t % Calendar.daySeconds)

/-- The first `count` seconds from `t` on at which a schedule fires. -/
def times (s : Schedule) : Nat → Nat → List Nat
  | 0, _ => []
  | count + 1, t =>
    match s.next? t with
    | some found => found :: times s count (found + 1)
    | none => []

/-- The first `count` seconds after the second `t` at which a schedule fires. -/
def timesAfter (s : Schedule) (t : Int) (count : Nat) : List Nat := s.times count (t + 1).toNat

end Schedule

end Cron

end Pipeline
