import SvgForm.Marker.Detector
import SvgForm.Marker.Geometry
/-! # Detecting annotations

An image without blue marks is not annotated. A raster is an image if it has four channels; one given as
bytes has to have as many as its size calls for.
-/

namespace SvgForm.Marker

/-- Why an image cannot be looked at. -/
inductive ImageError
  | negativeSize (width height : Int)
  | byteCount (count expected : Nat) (width height : Int)
  | otherShape (r : Raster) (width height : Int)
  | notFourChannels (r : Raster)
  /-- A part of a color or the tolerance is no word of sixteen bits. -/
  | oversized (n : Int)
  | impossible (e : AnnotationError)

/-- The shape of a raster as text. -/
def Raster.shapeText (r : Raster) : String :=
  "(" ++ ", ".intercalate ([r.height, r.width, r.channels].map fun n => .ofList (Text.natDigits n)) ++
    ")"

/-- The wording of an error. -/
def ImageError.message : ImageError → String
  | .negativeSize width height => "image size must be >= 0, got " ++ sizeText width height
  | .byteCount count expected width height =>
    "pixel buffer has " ++ .ofList (Text.natDigits count) ++ " bytes, expected " ++
      .ofList (Text.natDigits expected) ++ " for " ++ sizeText width height ++ " RGBA"
  | .otherShape r width height =>
    "pixel array shape " ++ r.shapeText ++ " does not match " ++ sizeText width height ++ " RGBA"
  | .notFourChannels r => "expected an H x W x 4 RGBA array, got shape " ++ r.shapeText
  | .oversized n =>
    if n.bmod (Nat.pow 2 64) ≠ n then "Python int too large to convert to C long"
    else "Python integer " ++ .ofList (intDigits n) ++ " out of bounds for int16"
  | .impossible e => e.message

namespace Detector

/-- What the marks of an image with a border say. -/
def annotate (d : Detector) (r : Raster) (border : List Place) : Except AnnotationError Annotation := do
  let box ← (boxAround border).check
  let green := d.marks .green r
  Annotation.check {
    imageWidth := r.width
    imageHeight := r.height
    border := box
    content := box.content
    center := centerOf (d.marks .red r) r.width r.height
    rotation := if green.length ≤ d.minGreen then 0 else rotationOf green d.endpointFraction.toFloat
    borderThickness := box.thickness r.width r.height
    markerCount := border.length
    confidence := .real (confidenceOf border.length r.width r.height) }

/-- The annotation of an image, if it has one. -/
def detectImage (d : Detector) (r : Raster) : Except ImageError (Option Annotation) :=
  if r.size = 0 then .ok none
  else if r.channels ≠ 4 then .error (.notFourChannels r)
  else
    match d.oversized?, d.marks .blue r with
    | some n, _ => .error (.oversized n)
    | none, [] => .ok none
    | none, border => ((d.annotate r border).map some).mapError .impossible

/-- The annotation of a raster that is to have this size. -/
def detectRaster (d : Detector) (r : Raster) (width height : Int) :
    Except ImageError (Option Annotation) :=
  if width < 0 ∨ height < 0 then .error (.negativeSize width height)
  else if width = 0 ∨ height = 0 then .ok none
  else if (r.width : Int) ≠ width ∨ (r.height : Int) ≠ height ∨ r.channels ≠ 4 then
    .error (.otherShape r width height)
  else d.detectImage r

/-- The annotation of an image given as the bytes of its pixels row by row. -/
def detectBytes (d : Detector) (bytes : Array UInt8) (width height : Int) :
    Except ImageError (Option Annotation) :=
  if width < 0 ∨ height < 0 then .error (.negativeSize width height)
  else if width = 0 ∨ height = 0 then .ok none
  else
    let r : Raster := ⟨width.toNat, height.toNat, 4, bytes⟩
    if bytes.size ≠ r.size then .error (.byteCount bytes.size r.size width height)
    else d.detectImage r

end Detector

end SvgForm.Marker
