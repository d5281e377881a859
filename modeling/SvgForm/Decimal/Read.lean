import SvgForm.Decimal.Binary
import SvgForm.Text.Blank
import SvgForm.Text.Digit
import SvgForm.Text.Lower
/-! # Reading a number

A number is a row of digits of any script with an optional point, and an optional exponent; underscores
may stand between digits, blanks around the whole, and a sign before it. The words for infinity and for
no number count, in either case.
-/

namespace SvgForm.Decimal

open Text

/-- Blanks that may stand around a number: the information separators may not. -/
def isMargin (c : Char) : Bool :=
  isBlank c && !(0x1C ≤ c.toNat && c.toNat ≤ 0x1F)

/-- The text without underscores; nothing when one does not stand between two digits. -/
def joinDigits? (afterDigit : Bool) : (text : List Char) → Option (List Char)
  | [] => some []
  | '_' :: text =>
    if afterDigit && (text.head?.any isDigit) then joinDigits? false text else none
  | c :: text => (joinDigits? (isDigit c) text).map (c :: ·)

/-- The sign at the start of a text: whether it is a minus, and what follows. -/
def signed : (text : List Char) → Bool × List Char
  | '-' :: text => (true, text)
  | '+' :: text => (false, text)
  | text => (false, text)

/-- The exponent that ends a number; nought when there is none. -/
def exponent? (text : List Char) : Option Int :=
  match text with
  | [] => some 0
  | c :: text =>
    if c = 'e' ∨ c = 'E' then
      let (negative, digits) := signed text
      (readNat? digits).map fun n => if negative then -(n : Int) else n
    else none

/-- The double nearest to `k · 10 ^ e`. Exponents beyond every double's are not worked out. -/
def ofDecimal (negative : Bool) (k : Nat) (e : Int) : Float :=
  let size : Int := (Nat.toDigits 10 k).length + e
  if k = 0 ∨ size < -400 then nearest negative 0 1
  else if 400 < size then nearest negative (Nat.pow 10 400) 1
  else if 0 ≤ e then nearest negative (k * Nat.pow 10 e.toNat) 1
  else nearest negative k (Nat.pow 10 (-e).toNat)

/-- Reads digits, an optional point with digits after it, and an exponent. -/
def readDigits? (negative : Bool) (text : List Char) : Option Float :=
  let front := text.takeWhile isDigit
  let rest := text.dropWhile isDigit
  let (places, rest) := match rest with
    | '.' :: rest => (rest.takeWhile isDigit, rest.dropWhile isDigit)
    | rest => ([], rest)
  if front = [] ∧ places = [] then none
  else
    (exponent? rest).map fun e =>
      ofDecimal negative (natOfDigits (front ++ places)) (e - places.length)

/-- The number that a text writes. -/
def read? (text : List Char) : Option Float :=
  let inner := dropEndWhile isMargin (text.dropWhile isMargin)
  let (negative, rest) := signed inner
  let word := rest.map Char.toLower
  if word = "inf".toList ∨ word = "infinity".toList then
    some (nearest negative (Nat.pow 10 400) 1)
  else if word = "nan".toList then some (0.0 / 0.0)
  else (joinDigits? false rest).bind (readDigits? negative)

end SvgForm.Decimal
