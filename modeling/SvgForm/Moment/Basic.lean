import SvgForm.Text.Digit
/-! # Moments

A moment is a date of the Gregorian calendar with a time of day, and perhaps the distance of its place
from universal time. Days are counted from the first day of the year 1, which is day 1 and a Monday.
-/

namespace SvgForm

structure Moment where
  year : Nat
  month : Nat
  day : Nat
  hour : Nat := 0
  minute : Nat := 0
  second : Nat := 0
  microsecond : Nat := 0
  /-- Microseconds ahead of universal time. -/
  offset : Option Int := none
  deriving DecidableEq

namespace Moment

def isLeap (year : Nat) : Bool :=
  year % 4 = 0 && (year % 100 ≠ 0 || year % 400 = 0)

/-- The lengths of a year's months. -/
def monthLengths (year : Nat) : List Nat :=
  [31, if isLeap year then 29 else 28, 31, 30, 31, 30, 31, 31, 30, 31, 30, 31]

/-- The number of days in a month; none in a month that no year has. -/
def daysInMonth (year month : Nat) : Nat :=
  if month = 0 then 0 else (monthLengths year)[month - 1]?.getD 0

def daysInYear (year : Nat) : Nat :=
  if isLeap year then 366 else 365

/-- The days before a year, from the year 1 on. -/
def daysBeforeYear (year : Nat) : Nat :=
  let y := year - 1
  y * 365 + y / 4 - y / 100 + y / 400

/-- The number of a day. -/
def dayNumber (year month day : Nat) : Nat :=
  daysBeforeYear year + ((monthLengths year).take (month - 1)).foldl Nat.add 0 + day

/-- The day of the week, nought on a Monday. -/
def weekday (m : Moment) : Nat :=
  (dayNumber m.year m.month m.day + 6) % 7

/-- Whether there is such a moment, in one of the years of four digits. -/
def isValid (m : Moment) : Bool :=
  1 ≤ m.year && m.year ≤ 9999 && 1 ≤ m.day && m.day ≤ daysInMonth m.year m.month &&
    m.hour < 24 && m.minute < 60 && m.second < 60 && m.microsecond < 1000000

/-- The month and the day of a year's day, counted from nought. -/
def monthAndDay : (month : Nat) → (lengths : List Nat) → (day : Nat) → Nat × Nat
  | month, [], day => (month, day + 1)
  | month, n :: rest, day =>
    if day < n then (month, day + 1) else monthAndDay (month + 1) rest (day - n)

/-- The date of a year's day, counted from nought; it may lie in the year before or after. -/
def ofYearDay (year : Nat) (day : Int) : Moment :=
  let (year, day) :=
    if day < 0 then (year - 1, day + daysInYear (year - 1))
    else if day < daysInYear year then (year, day)
    else (year + 1, day - daysInYear year)
  let (month, day) := monthAndDay 1 (monthLengths year) day.toNat
  { year, month, day }

/-- Whether a year has a fifty-third week: its first day is a Thursday, or a Wednesday of a leap year. -/
def hasLongYear (year : Nat) : Bool :=
  let first := (dayNumber year 1 1 + 6) % 7
  first = 3 || (first = 2 && isLeap year)

/-- The date of a day of a week. The first week of a year is the one with its first Thursday. -/
def ofWeek? (year week day : Nat) : Option Moment :=
  if year = 0 ∨ week = 0 ∨ 53 < week ∨ (week = 53 ∧ !hasLongYear year) ∨ day = 0 ∨ 7 < day then none
  else
    let first := (dayNumber year 1 1 + 6) % 7
    let monday : Int := if 3 < first then 7 - (first : Int) else -(first : Int)
    some (ofYearDay year (monday + ((week - 1) * 7 + (day - 1) : Nat)))

end Moment

end SvgForm
