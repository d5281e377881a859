import SvgForm.Decimal.Binary
import SvgForm.Marker.Annotation
import SvgForm.Marker.Raster
/-! # The geometry of marks

The border is the box around its marks, the center is the middle of its marks, and the rotation is that of
the line between the two ends of its marks, from left to right.
-/

namespace SvgForm.Marker

/-- A quotient of whole numbers; that of nought and nought is no number. -/
def quotient (n : Int) (den : Nat) : Float :=
  if den = 0 then 0 / 0 else Decimal.nearestInt n den

/-- The mean of numbers. -/
def mean (ns : List Nat) : Float :=
  quotient (ns.foldl Nat.add 0 : Nat) ns.length

/-- The point in the middle of places. -/
def middle (ps : List Place) : Point where
  x := mean (ps.map (·.x))
  y := mean (ps.map (·.y))

/-- The box around places. -/
def boxAround (ps : List Place) : BorderBox where
  left := ((ps.map (·.x)).min?.getD 0 : Nat)
  right := ((ps.map (·.x)).max?.getD 0 : Nat)
  top := ((ps.map (·.y)).min?.getD 0 : Nat)
  bottom := ((ps.map (·.y)).max?.getD 0 : Nat)

/-- The size of a box, without its right and bottom edges. -/
def BorderBox.content (b : BorderBox) : ContentSize where
  width := b.right - b.left
  height := b.bottom - b.top
  aspectRatio :=
    if b.bottom = b.top then 0 else quotient (b.right - b.left) (b.bottom - b.top).toNat

/-- The least distance between an edge of a box and that of its image. -/
def BorderBox.thickness (b : BorderBox) (width height : Int) : Int :=
  min (min b.left b.top) (min (width - b.right) (height - b.bottom))

/-- The middle of an image's marks; that of the image if there are none. -/
def centerOf (marks : List Place) (width height : Nat) : Point :=
  if marks = [] then { x := quotient width 2, y := quotient height 2 } else middle marks

/-- Whether a place lies left of another, or above it at the same distance from the left. -/
def Place.isBefore (p q : Place) : Bool :=
  p.x < q.x || (p.x = q.x && p.y ≤ q.y)

/-- The number of places at each end of a line of `n`: their share of all, but at least one. -/
def endpointSize (n : Nat) (share : Float) : Nat :=
  max 1 ((Decimal.truncated? (quotient n 1 * share)).getD 0).toNat

def degreesPerRadian : Float := 180 / 3.141592653589793

/-- The angle of the line through places, in degrees. -/
def rotationOf (marks : List Place) (share : Float) : Float :=
  let line := marks.mergeSort Place.isBefore
  let k := endpointSize line.length share
  let first := middle (line.take k)
  let last := middle (line.drop (line.length - k))
  Float.atan2 (last.y - first.y) (last.x - first.x) * degreesPerRadian

/-- How sure a border of so many marks is: wholly once they are a hundredth of the image. -/
def confidenceOf (count width height : Nat) : Float :=
  let share := quotient count 1 / (quotient (width * height : Nat) 1 * 0.01)
  if share < 1 then share else 1

end SvgForm.Marker
