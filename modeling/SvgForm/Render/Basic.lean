import SvgForm.Identity.Basic
import SvgForm.Render.Resolve
import SvgForm.Render.Write
/-! # Rendering

Rendering fills a copy of a document: the fields that are to be rendered get their values, and each value is
written into the element of its field. Fixed fields, and fields without an element, are passed over.
-/

namespace SvgForm

/-- What a form is filled with. -/
structure Filling where
  /-- Values by field id. -/
  values : KnownValues := []
  /-- The ids of the only fields to be rendered, apart from those that depend on them. -/
  changed : Option (List String) := none
  /-- The widths of lines by field id. -/
  wrapWidths : List (String × Float) := []
  /-- Which fields are checked, by field id. -/
  toggles : List (String × Bool) := []

namespace Field

/-- When the field's element hides. -/
def hides? (f : Field) : Option String :=
  f.hiddenWhen.filter (· ≠ "")

/-- Whether the field's element shows when the field is checked or not. -/
def showsWhen (f : Field) (checked : Bool) : Bool :=
  if f.hiddenWhen = some "checked" then !checked else checked

/-- The text of a value. A date is written in the field's own pattern, if it can be. -/
def textOf (f : Field) (v : Value) : String :=
  match f.dateFormat.filter fun pattern => f.kind = .date ∧ pattern ≠ "" with
  | none => v.display
  | some pattern =>
    let written := Moment.formatSource (.value v) pattern.toList
    if written = [] then v.display else .ofList written

end Field

namespace Document

variable {ε : Type}

/-- The filter that takes the color out of an image. -/
def grayscaleFilter : String := "grayscale(100%)"

/-- The element of a field: the one with its identity, or else the one with its id. -/
def locateField? (d : Document) (identities : List (Handle × String)) (f : Field) : Option Handle :=
  let identified := f.identity.bind fun identity =>
    if identity = "" then none else (identities.find? (·.2 = identity)).map (·.1)
  identified.or (f.elementId.bind fun id => d.find? id ["id"])

/-- Writes a value as the kind of its field asks. -/
def writeValue (d : Document) (m : FontGauge ε) (h : Handle) (f : Field) (v : Value)
    (width : Option Float) : Except ε Document :=
  match f.kind, v with
  | .static, _ => .ok d
  | .select, v => .ok (d.choose f.options v.display)
  | .checkbox, v => .ok (d.setVisible h (f.showsWhen v.ticks))
  | .upload, v | .file, v =>
    let d := d.setSource h v.display
    .ok (if f.grayscale = some true then d.setStyle h "filter" grayscaleFilter else d)
  | _, .null => .ok d
  | _, v => d.layText m h (f.textOf v) width

/-- Shows or hides the element of a field that is no checkbox but hides all the same. -/
def toggle (d : Document) (h : Handle) (f : Field) (checked : Bool) : Document :=
  if f.hides?.isSome ∧ f.kind ≠ .checkbox then d.setVisible h (f.showsWhen checked) else d

/-- Renders a field with its value. -/
def renderField (m : FontGauge ε) (identities : List (Handle × String)) (filling : Filling)
    (d : Document) (f : Field) (v : Value) : Except (RenderError ε) Document :=
  if f.kind = .static then .ok d
  else
    match d.locateField? identities f with
    | none => .ok d
    | some h => do
      let d ← (d.writeValue m h f v (filling.wrapWidths.lookup f.id)).mapError .measure
      let d ← d.rotate h f.rotation
      pure (d.toggle h f ((filling.toggles.lookup f.id).getD false))

/-- Renders fields, with fonts measured by `m`. -/
def render (d : Document) (fields : List Field) (filling : Filling) (m : FontGauge ε)
    (identityName : String) (draws : Draws) : Except (RenderError ε) Document :=
  let identities := d.copy.identities identityName
  (Field.resolveAll fields filling.values filling.changed draws).foldlM
    (fun out (f, v) => renderField m identities filling out f v) d.copy

end Document

end SvgForm
