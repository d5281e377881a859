import SvgForm.Value
/-! # Compact numbers

A number in an attribute has at most four decimal places, and no point when it is whole: 60 and 19.2.
-/

namespace SvgForm

def Decimal.compact (x : Float) : List Char :=
  let rounded := roundPlaces 4 x
  match whole? rounded with
  | some n => intDigits n
  | none => written rounded

/-- The compact form of a number; nothing if it lies beyond every double. -/
def Number.compact? (n : Number) : Option String :=
  if n.overflows then none else some (.ofList (Decimal.compact n.toFloat))

end SvgForm
