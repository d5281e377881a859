import SvgForm.Marker.Annotation
import SvgForm.Marker.Raster
/-! # Detectors

A detector tells which pixels are marks. A mark is opaque enough and close to a color of a palette in each
of its parts. Blue marks come before red ones, and those before green ones. The parts of colors and the
tolerance are words of sixteen bits, and so are their sums and differences.
-/

namespace SvgForm.Marker

structure Color where
  red : Int
  green : Int
  blue : Int
  deriving DecidableEq

/-- The colors of the marks. -/
structure Palettes where
  blue : List Color := [⟨0, 0, 255⟩, ⟨0, 102, 255⟩, ⟨30, 144, 255⟩, ⟨33, 150, 243⟩]
  red : List Color := [⟨255, 0, 0⟩, ⟨229, 57, 53⟩, ⟨244, 67, 54⟩]
  green : List Color := [⟨0, 255, 0⟩, ⟨0, 200, 83⟩, ⟨76, 175, 80⟩]

structure Detector where
  /-- How far each part of a mark's color may be from that of a palette. -/
  tolerance : Int := 60
  /-- The least opacity of a mark. -/
  alphaThreshold : Int := 50
  /-- So many green marks and fewer say nothing about the rotation. -/
  minGreen : Int := 20
  /-- The share of the green marks that makes up each end of their line. -/
  endpointFraction : Number := .real 0.1
  palettes : Palettes := {}

/-- What a mark stands for: the border, the center or the rotation. -/
inductive Mark
  | blue
  | red
  | green
  deriving DecidableEq

/-- Why there is no such detector. -/
inductive DetectorError
  | negativeTolerance (n : Int)
  | endpointFraction (x : Number)

/-- The wording of an error. -/
def DetectorError.message : DetectorError → String
  | .negativeTolerance n => "tolerance must be >= 0, got " ++ .ofList (intDigits n)
  | .endpointFraction x => "endpoint_fraction must be in (0, 0.5], got " ++ x.literal

/-- The value of a word of sixteen bits, the highest of which is its sign. -/
def wordValue (n : Int) : Int :=
  n.bmod 65536

/-- The nearest value that a sample can have. -/
def clamp (n : Int) : Int :=
  max 0 (min n 255)

/-- Whether a sample is close to a part of a color. -/
def isClose (tolerance part : Int) (sample : UInt8) : Bool :=
  clamp (wordValue (part - tolerance)) ≤ sample.toNat &&
    sample.toNat ≤ clamp (wordValue (part + tolerance))

/-- The first part of a color that is no word, or else the tolerance if it is none. -/
def Color.oversized? (tolerance : Int) (c : Color) : Option Int :=
  [c.red, c.green, c.blue, tolerance].find? fun n => wordValue n ≠ n

/-- Whether a pixel is close to a color. -/
def Color.isNear (tolerance : Int) (c : Color) (p : Pixel) : Bool :=
  isClose tolerance c.red p.red && isClose tolerance c.green p.green && isClose tolerance c.blue p.blue

namespace Detector

/-- A detector whose settings can be. -/
def check (d : Detector) : Except DetectorError Detector :=
  if d.tolerance < 0 then .error (.negativeTolerance d.tolerance)
  else if ¬(0 < d.endpointFraction.toFloat ∧ d.endpointFraction.toFloat ≤ 0.5) then
    .error (.endpointFraction d.endpointFraction)
  else .ok d

/-- The first number that the detector cannot compare colors with. A tolerance counts once there is a
color. -/
def oversized? (d : Detector) : Option Int :=
  (d.palettes.blue ++ d.palettes.red ++ d.palettes.green).findSome? (·.oversized? d.tolerance)

/-- Whether a pixel is close to a color of a palette. -/
def matchesAny (d : Detector) (palette : List Color) (p : Pixel) : Bool :=
  palette.any fun c => c.isNear d.tolerance p

/-- What a pixel marks. -/
def mark? (d : Detector) (p : Pixel) : Option Mark :=
  if (p.alpha.toNat : Int) < d.alphaThreshold then none
  else if d.matchesAny d.palettes.blue p then some .blue
  else if d.matchesAny d.palettes.red p then some .red
  else if d.matchesAny d.palettes.green p then some .green
  else none

/-- The places of a raster's marks of one kind, row by row. -/
def marks (d : Detector) (m : Mark) (r : Raster) : List Place :=
  r.places.filter fun p => d.mark? (r.pixel p) = some m

end Detector

end SvgForm.Marker
