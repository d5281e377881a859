import SvgForm.Moment.Iso
/-! # Patterns for moments

A pattern is text with codes for the parts of a moment. Of the codes that a text starts with the longest
counts; text in brackets is taken as it is. An underscore is written as a space wherever it stands.
-/

namespace SvgForm.Moment

def monthNames : List String :=
  ["January", "February", "March", "April", "May", "June", "July", "August", "September", "October",
    "November", "December"]

def dayNames : List String :=
  ["Monday", "Tuesday", "Wednesday", "Thursday", "Friday", "Saturday", "Sunday"]

inductive Code
  | year | shortYear
  | monthName | shortMonthName | paddedMonth | month
  | paddedDay | day | dayName | shortDayName
  | paddedHour | hour | paddedHalfHour | halfHour
  | paddedMinute | minute | paddedSecond | second
  | upperMeridiem | lowerMeridiem
  deriving DecidableEq

namespace Code

/-- How a pattern spells the code. -/
def spelling : Code → List Char
  | year => "YYYY".toList
  | shortYear => "YY".toList
  | monthName => "MMMM".toList
  | shortMonthName => "MMM".toList
  | paddedMonth => "MM".toList
  | month => "M".toList
  | paddedDay => "DD".toList
  | day => "D".toList
  | dayName => "dddd".toList
  | shortDayName => "ddd".toList
  | paddedHour => "HH".toList
  | hour => "H".toList
  | paddedHalfHour => "hh".toList
  | halfHour => "h".toList
  | paddedMinute => "mm".toList
  | minute => "m".toList
  | paddedSecond => "ss".toList
  | second => "s".toList
  | upperMeridiem => "A".toList
  | lowerMeridiem => "a".toList

/-- The codes, each before those that it starts with. -/
def all : List Code :=
  [year, shortYear, monthName, shortMonthName, paddedMonth, month, paddedDay, day, dayName, shortDayName,
    paddedHour, hour, paddedHalfHour, halfHour, paddedMinute, minute, paddedSecond, second,
    upperMeridiem, lowerMeridiem]

/-- The hour on a clock of twelve. -/
def halfHourOf (m : Moment) : Nat :=
  if m.hour % 12 = 0 then 12 else m.hour % 12

/-- The part of a moment that a code stands for. -/
def write (m : Moment) : Code → List Char
  | year => padded 4 m.year
  | shortYear => padded 2 (m.year % 100)
  | monthName => (monthNames[m.month - 1]?.getD "").toList
  | shortMonthName => (monthNames[m.month - 1]?.getD "").toList.take 3
  | paddedMonth => padded 2 m.month
  | month => Text.natDigits m.month
  | paddedDay => padded 2 m.day
  | day => Text.natDigits m.day
  | dayName => (dayNames[m.weekday]?.getD "").toList
  | shortDayName => (dayNames[m.weekday]?.getD "").toList.take 3
  | paddedHour => padded 2 m.hour
  | hour => Text.natDigits m.hour
  | paddedHalfHour => padded 2 (halfHourOf m)
  | halfHour => Text.natDigits (halfHourOf m)
  | paddedMinute => padded 2 m.minute
  | minute => Text.natDigits m.minute
  | paddedSecond => padded 2 m.second
  | second => Text.natDigits m.second
  | upperMeridiem => (if 12 ≤ m.hour then "PM" else "AM").toList
  | lowerMeridiem => (if 12 ≤ m.hour then "pm" else "am").toList

/-- The code that a text starts with, and what follows. -/
def read? (text : List Char) : Option (Code × List Char) :=
  all.findSome? fun code => (Text.after? code.spelling text).map (code, ·)

end Code

/-- A part of a pattern. -/
inductive PatternItem
  | text (s : List Char)
  | code (c : Code)
  deriving DecidableEq

/-- The first part of a pattern that starts with a character, and what follows. -/
def patternItem (c : Char) (rest : List Char) : PatternItem × List Char :=
  match if c = '[' then Text.cutAtChar? ']' rest else none with
  | some (inner, after) => (.text inner, after)
  | none =>
    match Code.read? (c :: rest) with
    | some (code, after) => (.code code, after)
    | none => (.text [c], rest)

theorem spelling_length_pos (code : Code) : 0 < code.spelling.length := by
  cases code <;> decide

theorem Code.read?_length {text rest : List Char} {code : Code}
    (h : Code.read? text = some (code, rest)) : rest.length < text.length := by
  obtain ⟨c, _, hc⟩ := List.exists_of_findSome?_eq_some h
  obtain ⟨r, hr, he⟩ := Option.map_eq_some_iff.1 hc
  simp only [Prod.mk.injEq] at he
  have h₁ := Text.after?_length hr
  have h₂ := spelling_length_pos c
  rw [← he.2]; omega

theorem patternItem_length (c : Char) (rest : List Char) :
    (patternItem c rest).2.length < (c :: rest).length := by
  simp only [patternItem]
  split
  · rename_i inner after h
    split at h
    · have := Text.cutAtChar?_length h
      simp only [List.length_cons]; omega
    · simp at h
  · split
    · rename_i h
      exact Code.read?_length h
    · simp

/-- The parts of a pattern. -/
def patternItems (pattern : List Char) : List PatternItem :=
  match pattern with
  | [] => []
  | c :: rest => (patternItem c rest).1 :: patternItems (patternItem c rest).2
termination_by pattern.length
decreasing_by exact patternItem_length c rest

def PatternItem.write (m : Moment) : PatternItem → List Char
  | .text s => s
  | .code c => c.write m

/-- The moment as a pattern writes it. -/
def format (m : Moment) (pattern : List Char) : List Char :=
  Text.replaceChar '_' ' ' ((patternItems pattern).flatMap (·.write m))

/-- A date as a pattern writes it; nothing if it is no date. -/
def formatSource (source : Source) (pattern : List Char) : List Char :=
  match ofSource? source with
  | some m => m.format pattern
  | none => []

end SvgForm.Moment
