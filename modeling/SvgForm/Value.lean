import SvgForm.Decimal.Written
import SvgForm.Text.Blank
import SvgForm.Text.Digit
import SvgForm.Text.Lower
/-! # Values

A field holds a scalar value. It has two texts: the one it shows in a document, where a whole number has
no point and nothing is the empty text, and its literal, which keeps the kinds of values apart.
-/

namespace SvgForm

inductive Number
  | int (n : Int)
  | real (x : Float)

inductive Value
  | null
  | bool (b : Bool)
  | number (n : Number)
  | text (s : String)

/-- The decimal digits of a whole number, after a minus sign when it is negative. -/
def intDigits (n : Int) : List Char :=
  if n < 0 then '-' :: Text.natDigits n.natAbs else Text.natDigits n.natAbs

/-- The number as a document shows it. -/
def Number.display : Number → String
  | .int n => .ofList (intDigits n)
  | .real x =>
    match Decimal.whole? x with
    | some n => .ofList (intDigits n)
    | none => .ofList (Decimal.written x)

/-- The number in full: one that is not an integer by kind has a point or an exponent. -/
def Number.literal : Number → String
  | .int n => .ofList (intDigits n)
  | .real x => .ofList (Decimal.written x)

/-- The nearest double. -/
def Number.toFloat : Number → Float
  | .int n => Decimal.nearestInt n 1
  | .real x => x

/-- Whether the number lies beyond every finite double, though it is a whole number. -/
def Number.overflows : Number → Bool
  | .int n => (Decimal.nearestInt n 1).isInf
  | .real _ => false

/-- The value as a document shows it. -/
def Value.display : Value → String
  | .null => ""
  | .bool b => if b then "true" else "false"
  | .number n => n.display
  | .text s => s

/-- The value as a literal. -/
def Value.literal : Value → String
  | .null => "None"
  | .bool b => if b then "True" else "False"
  | .number n => n.literal
  | .text s => s

/-- Whether the value is missing or the empty text. -/
def Value.isBlank : Value → Bool
  | .null => true
  | .text s => s.isEmpty
  | _ => false

/-- Image data and image addresses are texts that begin so. -/
def Value.isImageReference : Value → Bool
  | .text s =>
    Text.startsWith "data:image/".toList s.toList || Text.startsWith "blob:".toList s.toList
  | _ => false

/-- The texts that tick a box, in any case. -/
def tickingTexts : List String :=
  ["true", "1", "yes", "on", "checked"]

/-- Whether the value ticks a box. -/
def Value.ticks : Value → Bool
  | .bool b => b
  | v => lowered (trimmed v.display) ∈ tickingTexts

end SvgForm
