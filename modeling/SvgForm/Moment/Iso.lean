import SvgForm.Moment.Basic
import SvgForm.Text.Blank
import SvgForm.Value
/-! # Moments in ISO form

A date is written by year, month and day, or by year, week and day, with hyphens or without; after any one
character a time may follow, with colons or without, and after it the distance from universal time.
Digits are those of ASCII. Where nothing more may follow, a NUL character ends the text.
-/

namespace SvgForm.Moment

/-! ## Writing -/

/-- A number with noughts before it, up to a width. -/
def padded (width n : Nat) : List Char :=
  List.replicate (width - (Text.natDigits n).length) '0' ++ Text.natDigits n

/-- The distance from universal time. Seconds are written when there are any. -/
def writeOffset (offset : Int) : List Char :=
  let n := offset.natAbs
  let micros := n % 1000000
  let seconds := n / 1000000
  (if offset < 0 then '-' else '+') :: padded 2 (seconds / 3600) ++
    ':' :: padded 2 (seconds / 60 % 60) ++
    (if micros ≠ 0 ∨ seconds % 60 ≠ 0 then ':' :: padded 2 (seconds % 60) else []) ++
    (if micros ≠ 0 then '.' :: padded 6 micros else [])

def writeIso (m : Moment) : List Char :=
  padded 4 m.year ++ '-' :: padded 2 m.month ++ '-' :: padded 2 m.day ++
    'T' :: padded 2 m.hour ++ ':' :: padded 2 m.minute ++ ':' :: padded 2 m.second ++
    (if m.microsecond ≠ 0 then '.' :: padded 6 m.microsecond else []) ++
    (m.offset.elim [] writeOffset)

/-! ## Reading -/

/-- Reads a number of so many digits. -/
def digits? (count : Nat) (s : List Char) : Option (Nat × List Char) :=
  let front := s.take count
  if front.length = count ∧ front.all Char.isDigit then
    some (Text.natOfDigits front, s.drop count)
  else none

/-- The date of a week without its day, which is a Monday. -/
def weekDate? (year week : Nat) (rest : List Char) : Option (Moment × List Char) :=
  (ofWeek? year week 1).map (·, rest)

/-- The date of a week with the digit of its day. -/
def weekDayDate? (year week : Nat) (s : List Char) : Option (Moment × List Char) :=
  (digits? 1 s).bind fun (day, rest) => (ofWeek? year week day).map (·, rest)

/-- Whether so many digits right after a week start with its day. A time has pairs of digits, and one
character parts it from the date: of three digits the first is that character. -/
def startsWithDay (digits : Nat) : Bool :=
  digits = 1 || (digits ≠ 0 && digits % 2 = 0)

/-- Reads a date. A hyphen after a week starts its day, unless two characters on a time must have
begun. -/
def readDate? (s : List Char) : Option (Moment × List Char) :=
  (digits? 4 s).bind fun (year, s) =>
    match s with
    | '-' :: 'W' :: s =>
      (digits? 2 s).bind fun (week, rest) =>
        match rest with
        | '-' :: day =>
          if (day[1]?).any Char.isDigit then weekDate? year week rest else weekDayDate? year week day
        | _ => weekDate? year week rest
    | 'W' :: s =>
      (digits? 2 s).bind fun (week, rest) =>
        if startsWithDay (rest.takeWhile Char.isDigit).length then weekDayDate? year week rest
        else weekDate? year week rest
    | '-' :: s =>
      (digits? 2 s).bind fun (month, s) =>
        match s with
        | '-' :: s => (digits? 2 s).map fun (day, rest) => ({ year, month, day }, rest)
        | _ => none
    | s =>
      (digits? 2 s).bind fun (month, s) =>
        (digits? 2 s).map fun (day, rest) => ({ year, month, day }, rest)

/-- A time of day, or a distance; `clean` when nothing was left over after it. -/
structure Clock where
  hour : Nat := 0
  minute : Nat := 0
  second : Nat := 0
  microsecond : Nat := 0
  clean : Bool := true

/-- Sets the hour, the minute or the second. -/
def Clock.setPart (c : Clock) : (part : Nat) → (n : Nat) → Clock
  | 0, n => { c with hour := n }
  | 1, n => { c with minute := n }
  | _, n => { c with second := n }

/-- Whether a text is over, as it is from a NUL character on. -/
def isOver (s : List Char) : Bool :=
  s.head?.all (· = '\x00')

/-- Reads a fraction of a second, of which six digits count. -/
def readFraction? (c : Clock) (s : List Char) : Option Clock :=
  let front := s.take 6
  if front.all Char.isDigit then
    some { c with
      microsecond := Text.natOfDigits front * Nat.pow 10 (6 - front.length)
      clean := isOver ((s.drop 6).dropWhile Char.isDigit) }
  else none

/-- Reads the parts of a time from number `part` on: two digits each, parted by colons if the first is,
and a fraction. One character more is left over, unless the text is over there. -/
def readParts? (c : Clock) (colons : Option Bool) : (parts part : Nat) → List Char → Option Clock
  | 0, _, s => readFraction? c s
  | parts + 1, part, s =>
    (digits? 2 s).bind fun (n, rest) =>
      let c := c.setPart part n
      match rest with
      | [] => some c
      | sep :: after =>
        let colons := colons.getD (sep = ':')
        if after = [] ∧ sep.toNat < 0x80 then some { c with clean := isOver rest }
        else if colons ∧ sep = ':' then readParts? c (some colons) parts (part + 1) after
        else if sep = '.' ∨ sep = ',' then readFraction? c after
        else if colons then none
        else readParts? c (some colons) parts (part + 1) rest

/-- Reads a time of up to three parts. -/
def readClock? (s : List Char) : Option Clock :=
  readParts? {} none 3 0 s

/-- The distance of a clock's time, in microseconds. Less than a second is none. -/
def Clock.offset (c : Clock) (negative : Bool) : Int :=
  let seconds := c.hour * 3600 + c.minute * 60 + c.second
  let n : Nat := if seconds = 0 then 0 else seconds * 1000000 + c.microsecond
  if negative then -(n : Int) else n

/-- Whether a character starts a distance from universal time. -/
def startsOffset (c : Char) : Bool :=
  c = '+' || c = '-' || c = 'Z'

/-- Reads a distance: the letter for none, or a sign and a time of less than a day. -/
def readOffset? (sign : Char) (s : List Char) : Option Int :=
  if sign = 'Z' then if isOver s then some 0 else none
  else
    (readClock? s).bind fun c =>
      let offset := c.offset (sign = '-')
      if c.clean ∧ offset.natAbs < 86400000000 then some offset else none

/-- Adds a time to a date. Without a distance nothing may be left over. -/
def withTime? (m : Moment) (s : List Char) : Option Moment :=
  (readClock? (s.takeWhile fun c => !startsOffset c)).bind fun c =>
    let m := { m with
      hour := c.hour, minute := c.minute, second := c.second, microsecond := c.microsecond }
    match s.dropWhile fun c => !startsOffset c with
    | [] => if c.clean then some m else none
    | sign :: rest => (readOffset? sign rest).map fun offset => { m with offset := some offset }

/-- Reads a moment: a date, and a time after any one character. -/
def readIso? (s : List Char) : Option Moment :=
  ((readDate? s).bind fun (m, rest) =>
    match rest with
    | [] => some m
    | _ :: time => withTime? m time).filter (·.isValid)

/-- What a date can be given as. -/
inductive Source
  | moment (m : Moment)
  | value (v : Value)

/-- Reads a moment from a value's literal. A letter for universal time at its end is a distance of nought. -/
def ofSource? : Source → Option Moment
  | .moment m => some m
  | .value v =>
    let s := Text.trim v.literal.toList
    match Text.before? ['Z'] s with
    | some front => readIso? (front ++ "+00:00".toList)
    | none => readIso? s

end SvgForm.Moment
