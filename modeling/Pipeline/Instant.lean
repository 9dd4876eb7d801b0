import Pipeline.Calendar
import Pipeline.Text.Blank
import Pipeline.Text.Number

/-!
# Points in time

* `Instant`: a point in time, to the nanosecond.
* `Instant.ofText?`: reads a date and a time of day with an offset.
* `Instant.text`, `Instant.textWithOffset`: the written forms, in universal time.
-/

namespace Pipeline

/-- A point in time: whole seconds since the start of 1970 in universal time, and nanoseconds.
Inside a leap second there are more than 999999999 of them. -/
structure Instant where
  seconds : Int
  nanos : Nat
  deriving DecidableEq, Repr, Inhabited

namespace Instant

/-- How many nanoseconds a second has. -/
def secondNanos : Nat := 1000000000

/-! ## Writing -/

/-- The day of a point in time. -/
def day (t : Instant) : Int := t.seconds / Calendar.daySeconds

/-- The second of the day of a point in time. -/
def secondOfDay (t : Instant) : Nat := (t.seconds % Calendar.daySeconds).toNat

/-- The written form of a year: four digits, or more digits with a sign. -/
def yearText (year : Int) : String :=
  if 0 ≤ year ∧ year ≤ 9999 then Text.zeroPadded 4 year.toNat
  else (if year < 0 then "-" else "+") ++ Text.zeroPadded 4 year.natAbs

/-- The date and the time of day, without a fraction. -/
def dateTime (t : Instant) : String :=
  let date := Calendar.dateOfDay t.day
  let s := t.secondOfDay
  let leap := if secondNanos ≤ t.nanos then 1 else 0
  yearText date.year ++ "-" ++ Text.zeroPadded 2 date.month ++ "-" ++
    Text.zeroPadded 2 date.day ++ "T" ++ Text.zeroPadded 2 (s / 3600) ++ ":" ++
    Text.zeroPadded 2 (s / 60 % 60) ++ ":" ++ Text.zeroPadded 2 (s % 60 + leap)

/-- The fraction of a second, with as many groups of three digits as it needs. -/
def fraction (t : Instant) : String :=
  let n := t.nanos % secondNanos
  if n = 0 then ""
  else if n % 1000000 = 0 then "." ++ Text.zeroPadded 3 (n / 1000000)
  else if n % 1000 = 0 then "." ++ Text.zeroPadded 6 (n / 1000)
  else "." ++ Text.zeroPadded 9 n

/-- The written form with the letter of universal time. -/
def text (t : Instant) : String := t.dateTime ++ t.fraction ++ "Z"

/-- The written form with the offset of universal time. -/
def textWithOffset (t : Instant) : String := t.dateTime ++ t.fraction ++ "+00:00"

/-! ## Reading -/

/-- The text without the blank characters at its start. -/
def trimStart (cs : List Char) : List Char := cs.dropWhile Text.isBlankChar

/-- Reads a number of at most `width` digits, with blanks before it. -/
def number? (width : Nat) (cs : List Char) : Option (Nat × List Char) :=
  let cs := trimStart cs
  let ds := (cs.takeWhile Text.isDecimalDigit).take width
  (Text.natural? 10 ds).map fun n => (n, cs.drop ds.length)

/-- Reads a year: four digits at most, or any number of them behind a sign. -/
def year? (cs : List Char) : Option (Int × List Char) :=
  match trimStart cs with
  | '-' :: rest => (signedYear? rest).map fun (n, rest) => (-(n : Int), rest)
  | '+' :: rest => (signedYear? rest).map fun (n, rest) => ((n : Int), rest)
  | cs => (number? 4 cs).map fun (n, rest) => ((n : Int), rest)
where
  signedYear? (cs : List Char) : Option (Nat × List Char) :=
    let ds := cs.takeWhile Text.isDecimalDigit
    (Text.natural? 10 ds).map fun n => (n, cs.drop ds.length)

/-- Passes a sign, with blanks before it. -/
def sign? (c : Char) (cs : List Char) : Option (List Char) :=
  match trimStart cs with
  | d :: rest => if c = d then some rest else none
  | [] => none

/-- Reads the fraction of a second, which may be missing. Digits behind the ninth are passed. -/
def fraction? : List Char → Option (Nat × List Char)
  | '.' :: cs =>
    let ds := cs.takeWhile Text.isDecimalDigit
    let used := ds.take 9
    (Text.natural? 10 used).map fun n => (n * Nat.pow 10 (9 - used.length), cs.drop ds.length)
  | cs => some (0, cs)

/-- Reads two digits. -/
def twoDigits? : List Char → Option (Nat × List Char)
  | a :: b :: rest => (Text.natural? 10 [a, b]).map fun n => (n, rest)
  | _ => none

/-- Reads the hours and minutes of an offset, behind its sign, as seconds. -/
def offsetSize? (cs : List Char) : Option (Nat × List Char) :=
  match twoDigits? cs with
  | none => none
  | some (hours, rest) =>
    match twoDigits? (rest.dropWhile fun c => c == ':' || Text.isBlankChar c) with
    | none => none
    | some (minutes, rest) =>
      if minutes < 60 then some (hours * 3600 + minutes * 60, rest) else none

/-- Whether the text begins with the letters `utc`, in any case. -/
def isUniversal (cs : List Char) : Bool :=
  (cs.take 3).map Char.toLower == ['u', 't', 'c']

/-- Reads an offset from universal time, in seconds. -/
def offset? (cs : List Char) : Option (Int × List Char) :=
  if isUniversal cs then some (0, cs.drop 3)
  else
    match cs with
    | [] => none
    | c :: rest =>
      if c = 'Z' ∨ c = 'z' then some (0, rest)
      else if c = '+' then (offsetSize? rest).map fun (n, rest) => ((n : Int), rest)
      else if c = '-' ∨ c.toNat = 0x2212 then
        (offsetSize? rest).map fun (n, rest) => (-(n : Int), rest)
      else none

/-- Reads a date. -/
def date? (cs : List Char) : Option (Calendar.Date × List Char) := do
  let (year, cs) ← year? cs
  let cs ← sign? '-' cs
  let (month, cs) ← number? 2 cs
  let cs ← sign? '-' cs
  let (day, cs) ← number? 2 cs
  let date : Calendar.Date := ⟨year, month, day⟩
  if date.isValid ∧ -262143 ≤ year ∧ year ≤ 262142 then some (date, cs) else none

/-- Reads a time of day: the second of the day, and the nanoseconds. The sixtieth second of a
minute is a leap second. -/
def time? (cs : List Char) : Option ((Nat × Nat) × List Char) := do
  let (hour, cs) ← number? 2 cs
  let cs ← sign? ':' cs
  let (minute, cs) ← number? 2 cs
  let cs ← sign? ':' cs
  let (second, cs) ← number? 2 cs
  let (nanos, cs) ← fraction? cs
  if hour < 24 ∧ minute < 60 ∧ second ≤ 60 then
    let minuteStart := hour * 3600 + minute * 60
    let point := if second = 60 then (minuteStart + 59, secondNanos + nanos)
      else (minuteStart + second, nanos)
    some (point, trimStart cs)
  else none

/-- Reads a date, a letter `T` or a space, a time of day and an offset. -/
def ofText? (s : String) : Option Instant := do
  let (date, cs) ← date? s.toList
  let cs ← match cs with
    | c :: rest => if c = 'T' ∨ c = 't' ∨ c = ' ' then some rest else none
    | [] => none
  let ((second, nanos), cs) ← time? cs
  let (offset, cs) ← offset? cs
  if cs.isEmpty ∧ offset.natAbs < Calendar.daySeconds then
    some ⟨Calendar.dayOfDate date * Calendar.daySeconds + second - offset, nanos⟩
  else none

end Instant

end Pipeline
