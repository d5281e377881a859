import SvgForm.Value
/-! # Annotations

What the marks in an image say: the box that frames the content, the center and the rotation.
-/

namespace SvgForm.Marker

/-- The edges of a box, all of which belong to it. -/
structure BorderBox where
  left : Int
  right : Int
  top : Int
  bottom : Int
  deriving DecidableEq

structure ContentSize where
  width : Int
  height : Int
  aspectRatio : Float

structure Point where
  x : Float
  y : Float

structure Annotation where
  imageWidth : Int
  imageHeight : Int
  border : BorderBox
  content : ContentSize
  center : Point
  /-- In degrees, positive where the line falls to the right. -/
  rotation : Float
  /-- The least distance between an edge of the box and that of the image. -/
  borderThickness : Int
  /-- The number of pixels that mark the border. -/
  markerCount : Int
  /-- How sure the border is, from nought to one. -/
  confidence : Number

/-- Why something is no annotation. -/
inductive AnnotationError
  | rightBeforeLeft (right left : Int)
  | bottomAboveTop (bottom top : Int)
  | emptyImage (width height : Int)
  | confidence (c : Number)
  | negativeCount (n : Int)

/-- Two numbers as a size. -/
def sizeText (width height : Int) : String :=
  .ofList (intDigits width ++ 'x' :: intDigits height)

/-- The wording of an error. -/
def AnnotationError.message : AnnotationError → String
  | .rightBeforeLeft right left =>
    "right must be >= left, got " ++ .ofList (intDigits right) ++ " < " ++ .ofList (intDigits left)
  | .bottomAboveTop bottom top =>
    "bottom must be >= top, got " ++ .ofList (intDigits bottom) ++ " < " ++ .ofList (intDigits top)
  | .emptyImage width height => "image size must be positive, got " ++ sizeText width height
  | .confidence c => "confidence must be in [0, 1], got " ++ c.literal
  | .negativeCount n => "marker_pixel_count must be >= 0, got " ++ .ofList (intDigits n)

/-- A box whose edges are in order. -/
def BorderBox.check (b : BorderBox) : Except AnnotationError BorderBox :=
  if b.right < b.left then .error (.rightBeforeLeft b.right b.left)
  else if b.bottom < b.top then .error (.bottomAboveTop b.bottom b.top)
  else .ok b

/-- An annotation of an image that is not empty, with a confidence and a count that can be. -/
def Annotation.check (a : Annotation) : Except AnnotationError Annotation :=
  if a.imageWidth ≤ 0 ∨ a.imageHeight ≤ 0 then .error (.emptyImage a.imageWidth a.imageHeight)
  else if ¬(0 ≤ a.confidence.toFloat ∧ a.confidence.toFloat ≤ 1) then .error (.confidence a.confidence)
  else if a.markerCount < 0 then .error (.negativeCount a.markerCount)
  else .ok a

end SvgForm.Marker
