import SvgForm.Decimal.Written
import SvgForm.Text.Blank
import SvgForm.Text.Lower
/-! # Font metrics

How much room a font takes at a size: the extent of a line above and below its baseline, and the width of
a text. Fonts are measured from their files, which know whole pixel sizes only, or in proportion to the
size where there is no file.
-/

namespace SvgForm

/-- What a font file says about its font, in thousandths of the pixel size. Every character is as wide as
any other. -/
structure FontFace where
  ascent : Int
  descent : Int
  width : Int

/-- The font files by family, and the fonts in them by path. -/
structure FontFiles where
  paths : List (String × String) := []
  faces : List (String × FontFace) := []

/-- The extent of a line above and below its baseline. -/
structure FontExtent where
  ascent : Float
  descent : Float

/-- Why something cannot be measured. -/
inductive MeasureError
  | infiniteSize
  | sizeNotANumber
  | negative (ascent descent : Float)
  /-- A measure in pixels lies beyond every double. -/
  | tooLarge
  /-- A width lies beyond every double. -/
  | tooWide

/-- The wording of an error. -/
def MeasureError.message : MeasureError → String
  | .infiniteSize => "cannot convert float infinity to integer"
  | .sizeNotANumber => "cannot convert float NaN to integer"
  | .negative ascent descent =>
    "metrics must be >= 0, got ascent=" ++ .ofList (Decimal.written ascent) ++ " descent=" ++
      .ofList (Decimal.written descent)
  | .tooLarge => "int too large to convert to float"
  | .tooWide => "integer division result too large for a float"

/-- An extent of which neither part is negative. -/
def FontExtent.checked (ascent descent : Float) : Except MeasureError FontExtent :=
  if ascent < 0 ∨ descent < 0 then .error (.negative ascent descent) else .ok { ascent, descent }

/-- The distance between two baselines: the extent and a gap, given as a share of the size. -/
def FontExtent.lineHeight (e : FontExtent) (size gap : Float) : Float :=
  e.ascent + e.descent + gap * size

/-- The gap between lines where no other is given. -/
def lineGap : Float := 0.2

/-! ## Measuring by font files -/

/-- The pixel size for a size: the nearest whole number, but at least one. -/
def pixelSize (size : Float) : Except MeasureError Nat :=
  match Decimal.rounded? size with
  | some n => .ok (max 1 n.toNat)
  | none => .error (if size.isNaN then .sizeNotANumber else .infiniteSize)

/-- The size in pixels of one. -/
def pixelScale (pixels : Nat) (size : Float) : Float :=
  size / Decimal.nearestInt pixels 1

/-- A font that was loaded at a pixel size: what it measures there, if nothing goes wrong with it. -/
structure Typeface (ε : Type) where
  pixels : Nat
  positive : 0 < pixels
  /-- How many pixels a line reaches above and below its baseline. -/
  line : Except ε (Int × Int)
  /-- How many pixels wide a text is. -/
  width (text : List Char) : Except ε Float

namespace Typeface

variable {ε : Type}

/-- A measure in pixels, scaled to the size. -/
def scaled (measure : Int) (pixels : Nat) (size : Float) : Except MeasureError Float :=
  let whole := Decimal.nearestInt measure 1
  if whole.isInf then .error .tooLarge else .ok (whole * pixelScale pixels size)

/-- An extent in pixels, scaled to the size. -/
def scaledLine (ascent descent : Int) (pixels : Nat) (size : Float) : Except MeasureError FontExtent := do
  let ascent ← scaled ascent pixels size
  let descent ← scaled descent pixels size
  FontExtent.checked ascent descent

/-- The extent of a line at a size. Errors of measuring are turned into those of the font by `refuse`. -/
def extent (f : Typeface ε) (refuse : MeasureError → ε) (size : Float) : Except ε FontExtent := do
  let (ascent, descent) ← f.line
  (scaledLine ascent descent f.pixels size).mapError refuse

/-- The width of a text at a size. -/
def textWidth (f : Typeface ε) (size : Float) (text : List Char) : Except ε Float := do
  let width ← f.width text
  pure (width * pixelScale f.pixels size)

end Typeface

/-- The font at a pixel size. Of an extent in pixels the fraction is cut off. -/
def FontFace.load (f : FontFace) (pixels : Nat) : Typeface MeasureError where
  pixels := max 1 pixels
  positive := Nat.le_max_left 1 pixels
  line := .ok ((f.ascent * pixels).fdiv 1000, (f.descent * pixels).fdiv 1000)
  width text :=
    let width := Decimal.nearestInt (text.length * f.width * pixels) 1000
    if width.isInf then .error .tooWide else .ok width

/-- The path for a family whose name is in small letters. The last of several counts; an empty path is none. -/
def pathFor? (paths : List (String × String)) (family : String) : Option String :=
  ((paths.reverse.find? fun p => lowered p.1 = family).map (·.2)).filter (· ≠ "")

namespace FontFiles

/-- What is loaded from the file at a path. -/
def load (f : FontFiles) (path : String) (pixels : Nat) : Except MeasureError (Option (Typeface MeasureError)) :=
  .ok ((f.faces.lookup path).map (·.load pixels))

/-- The font of a family whose name is in small letters. -/
def face? (f : FontFiles) (family : String) : Option FontFace :=
  (pathFor? f.paths family).bind fun path => f.faces.lookup path

end FontFiles

/-! ## Measuring -/

/-- Whatever measures fonts: it tells the extent of a line and the width of a text, or why it cannot. -/
structure FontGauge (ε : Type) where
  extent (family : String) (size : Float) : Except ε FontExtent
  textWidth (family : String) (size : Float) (text : List Char) : Except ε Float

/-- How fonts are measured. -/
inductive FontMetrics
  /-- Every measure is a share of the size: the ascent, the descent and a character's width. -/
  | proportional (ascent descent width : Float)
  /-- Families without a file are measured by `fallback`. -/
  | files (f : FontFiles) (fallback : FontMetrics)

namespace FontMetrics

/-- The shares that fit most fonts. -/
def typical : FontMetrics :=
  .proportional 0.8 0.2 0.6

/-- Files, but none of them known. -/
def noFiles : FontMetrics :=
  .files {} typical

/-- The extent of a line. -/
def extent (family : String) (size : Float) : FontMetrics → Except MeasureError FontExtent
  | .proportional ascent descent _ => FontExtent.checked (size * ascent) (size * descent)
  | .files f fallback => do
    let pixels ← pixelSize size
    match f.face? (lowered family) with
    | some face => (face.load pixels).extent id size
    | none => fallback.extent family size

/-- The width of a text. -/
def textWidth (family : String) (size : Float) (text : List Char) :
    FontMetrics → Except MeasureError Float
  | .proportional _ _ width => .ok (Decimal.nearestInt text.length 1 * size * width)
  | .files f fallback => do
    let pixels ← pixelSize size
    match f.face? (lowered family) with
    | some face => (face.load pixels).textWidth size text
    | none => fallback.textWidth family size text

def gauge (m : FontMetrics) : FontGauge MeasureError where
  extent family size := m.extent family size
  textWidth family size text := m.textWidth family size text

end FontMetrics

/-! ## Font files as text -/

/-- The family and the path in an entry, if it has both. -/
def FontFiles.pathOf? (entry : List Char) : Option (String × String) :=
  (Text.cutAtChar? '=' entry).bind fun (family, path) =>
    let (family, path) := (Text.trim family, Text.trim path)
    if family = [] ∨ path = [] then none else some (.ofList family, .ofList path)

/-- Reads paths by family: entries `family=path`, parted by commas. Of two entries of a family the later
counts, and entries without a family or a path do not. -/
def FontFiles.readPaths (text : String) : List (String × String) :=
  ((text.toList.splitOn ',').filterMap pathOf?).foldl
    (fun paths entry => paths.filter (·.1 ≠ entry.1) ++ [entry]) []

end SvgForm
