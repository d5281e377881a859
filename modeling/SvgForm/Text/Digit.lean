import SvgForm.Text.Basic
/-! # Decimal digits

Every script's decimal digits count as digits. They stand in runs of ten, from nought to nine, so the
table holds each run's nought.
-/

namespace SvgForm.Text

/-- The code points of the digits nought. -/
def noughts : List Nat := [
  0x30, 0x660, 0x6F0, 0x7C0, 0x966, 0x9E6, 0xA66, 0xAE6, 0xB66, 0xBE6, 0xC66, 0xCE6, 0xD66, 0xDE6,
  0xE50, 0xED0, 0xF20, 0x1040, 0x1090, 0x17E0, 0x1810, 0x1946, 0x19D0, 0x1A80, 0x1A90, 0x1B50,
  0x1BB0, 0x1C40, 0x1C50, 0xA620, 0xA8D0, 0xA900, 0xA9D0, 0xA9F0, 0xAA50, 0xABF0, 0xFF10, 0x104A0,
  0x10D30, 0x11066, 0x110F0, 0x11136, 0x111D0, 0x112F0, 0x11450, 0x114D0, 0x11650, 0x116C0,
  0x11730, 0x118E0, 0x11950, 0x11C50, 0x11D50, 0x11DA0, 0x16A60, 0x16AC0, 0x16B50, 0x1D7CE,
  0x1D7D8, 0x1D7E2, 0x1D7EC, 0x1D7F6, 0x1E140, 0x1E2F0, 0x1E950, 0x1FBF0]
/-- The value of a decimal digit. -/
def digit? (c : Char) : Option Nat :=
  (noughts.find? fun z => z ≤ c.toNat && c.toNat < z + 10).map (c.toNat - ·)

def isDigit (c : Char) : Bool :=
  (digit? c).isSome

/-- The value of a digit, zero for any other character. -/
def digitValue (c : Char) : Nat :=
  (digit? c).getD 0

/-- The number that a row of digits writes, most significant first. -/
def natOfDigits (digits : List Char) : Nat :=
  digits.foldl (fun n c => 10 * n + digitValue c) 0

/-- The number that a text of digits writes, however many; nothing when it is empty or holds another character. -/
def readNat? (text : List Char) : Option Nat :=
  if text ≠ [] ∧ text.all isDigit then some (natOfDigits text) else none

/-- The digits of a number, most significant first. -/
def natDigits (n : Nat) : List Char :=
  Nat.toDigits 10 n

/-- The number at the start of a text, with an optional minus sign, and what follows it. -/
def leadingInt? (text : List Char) : Option (Int × List Char) :=
  match text with
  | '-' :: rest =>
    if (rest.takeWhile isDigit) ≠ [] then
      some (-(natOfDigits (rest.takeWhile isDigit) : Int), rest.dropWhile isDigit)
    else none
  | _ =>
    if (text.takeWhile isDigit) ≠ [] then
      some ((natOfDigits (text.takeWhile isDigit) : Int), text.dropWhile isDigit)
    else none

/-- The first number in a text, wherever it stands. -/
def firstInt? : (text : List Char) → Option Int
  | [] => none
  | c :: text =>
    match leadingInt? (c :: text) with
    | some (n, _) => some n
    | none => firstInt? text

end SvgForm.Text
