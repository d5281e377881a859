import SvgForm.Decimal.Compact
import SvgForm.Document.Text
import SvgForm.Field
import SvgForm.Font.Inherited
import SvgForm.Font.Metrics
import SvgForm.Moment.Pattern
import SvgForm.Text.Wrap
/-! # Writing values into elements

A value becomes the text of an element, one span a line if it has several; the source of an image; or the
element's being visible or not.
-/

namespace SvgForm

/-- Why a document cannot be rendered, where fonts may fail to be measured for a reason of the type `ε`. -/
inductive RenderError (ε : Type)
  | measure (e : ε)
  /-- An angle lies beyond every double. -/
  | numberTooLarge

/-- The wording of an error. -/
def RenderError.message {ε : Type} (wording : ε → String) : RenderError ε → String
  | .measure e => wording e
  | .numberTooLarge => MeasureError.tooLarge.message

namespace Document

variable {ε : Type}

/-! ## Visibility -/

/-- Shows an element or hides it. -/
def setVisible (d : Document) (h : Handle) (visible : Bool) : Document :=
  if visible then
    ((d.set h "opacity" "1").set h "visibility" "visible").remove h "display"
  else
    ((d.set h "opacity" "0").set h "visibility" "hidden").set h "display" "none"

/-! ## Text -/

/-- The lines in which a text is written: wrapped, if a width other than nought is given. -/
def linesToWrite (g : FontGauge ε) (font : Font) (text : String) (width : Option Float) :
    Except ε (List (List Char)) :=
  match width.filter fun w => !(w == 0) with
  | some w => Text.wrap (fun line => g.textWidth font.family font.size line) w text.toList
  | none => .ok (text.toList.splitOn '\n')

/-- A line as the text of a span: a no-break space keeps an empty line. -/
def spanText (line : List Char) : String :=
  if line = [] then "\u00a0" else .ofList line

/-- Makes a span for a line. Its anchor and its distance from the line before are attributes. -/
def appendLine (h : Handle) (x dy : Option String) (d : Document) (line : List Char) : Document :=
  d.appendChild h "tspan" ((x.map ("x", ·)).toList ++ (dy.map ("dy", ·)).toList) (spanText line)

/-- Makes lines, so far apart, the whole content of an element. Each is anchored where the element is. -/
def setLines (d : Document) (h : Handle) (first : List Char) (rest : List (List Char))
    (spacing : String) : Document :=
  let x := d.get? h "x"
  rest.foldl (appendLine h x (some spacing)) (appendLine h x none (d.clear h) first)

/-- Makes a text the whole content of an element, in lines as far apart as its font asks if it has several. -/
def layText (d : Document) (g : FontGauge ε) (h : Handle) (text : String) (width : Option Float) :
    Except ε Document := do
  let font := d.font h
  match ← linesToWrite g font text width with
  | first :: second :: rest =>
    let extent ← g.extent font.family font.size
    let spacing := Decimal.compact (extent.lineHeight font.size lineGap)
    pure (d.setLines h first (second :: rest) (.ofList spacing))
  | _ => pure (d.setText h text)

/-! ## Images -/

/-- Sets the source of an image. No source leaves it as it is. -/
def setSource (d : Document) (h : Handle) (source : String) : Document :=
  if source = "" then d
  else d.set h (if d.has h "href" then "href" else "xlink:href") source

/-! ## Choices -/

/-- Shows the element of an option or hides it. A hidden one loses its style. -/
def showOption (d : Document) (o : SelectOption) (chosen : Bool) : Document :=
  match d.find? o.source ["id"] with
  | none => d
  | some h => if chosen then d.setVisible h true else (d.setVisible h false).remove h "style"

/-- Shows the first option with a value and hides the others. Where there is none the first option is
shown. -/
def choose (d : Document) (options : List SelectOption) (value : String) : Document :=
  let chosen := (options.findIdx? (·.value = value)).getD 0
  options.zipIdx.foldl (fun d (o, i) => d.showOption o (i = chosen)) d

/-! ## Rotation -/

/-- The number in an attribute, which may have the unit of pixels; nought if there is none. -/
def attributeNumber (d : Document) (h : Handle) (name : String) : Float :=
  let raw := ((d.get? h name).getD "").toList
  (Decimal.read? (Text.dropEndWhile (fun c => c = 'p' ∨ c = 'x') (Text.trim raw))).getD 0

/-- The rotation by an angle about the center of an element. -/
def rotation (d : Document) (h : Handle) (degrees : Number) : Except (RenderError ε) String := do
  let centerX := d.attributeNumber h "x" + d.attributeNumber h "width" / 2
  let centerY := d.attributeNumber h "y" + d.attributeNumber h "height" / 2
  match degrees.compact? with
  | none => throw .numberTooLarge
  | some angle =>
    pure ("rotate(" ++ angle ++ ", " ++ .ofList (Decimal.compact centerX) ++ ", " ++
      .ofList (Decimal.compact centerY) ++ ")")

/-- Rotates an element. An angle of nought takes its rotation away, and none leaves it as it is. -/
def rotate (d : Document) (h : Handle) (degrees : Option Number) : Except (RenderError ε) Document :=
  match degrees with
  | none => pure d
  | some angle =>
    if angle.toFloat == 0 then pure (d.remove h "transform")
    else do pure (d.set h "transform" (← d.rotation h angle))

end Document

end SvgForm
