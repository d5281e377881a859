import SvgForm.Datum
import SvgForm.Identifier
/-! # Fields

A field is one editable unit of a form: where it stands in the document, what it takes and what it holds.
A field has an id; its bounds are not negative; when it hides, it hides when something is checked or
unchecked. Fields are exchanged as records.
-/

namespace SvgForm

/-- One choice of a select field: the value it stands for, and the element that shows it. -/
structure SelectOption where
  value : String
  label : Option String
  source : String

structure Field where
  id : String
  name : String
  kind : Kind
  elementId : Option String
  identity : Option String := none
  defaultValue : Value := .null
  currentValue : Value := .null
  maxLength : Option Int := none
  minLength : Option Int := none
  dateFormat : Option String := none
  generationRule : Option String := none
  generationMode : Option String := none
  dependsOn : Option String := none
  /-- A flag may be left open. -/
  editable : Option Bool := some true
  options : List SelectOption := []
  hiddenWhen : Option String := none
  rotation : Option Number := none
  trackingId : Option Bool := some false
  trackingLink : Option String := none
  trackingRole : Option String := none
  grayscale : Option Bool := some false

/-- Why something is no field. -/
inductive FieldError
  | emptyId
  /-- A bound cannot be read. -/
  | tooManyDigits (e : TooManyDigits)
  | negativeMaxLength (n : Int)
  | negativeMinLength (n : Int)
  | badHiddenWhen (text : String)
  | badKind (literal : String)
  | missing (entry : String)
  /-- An entry holds something of another type than it should. -/
  | mistyped (entry : String)

/-- The wording of an error. -/
def FieldError.message : FieldError → String
  | .emptyId => "id must be a non-empty string"
  | .tooManyDigits e => e.message
  | .negativeMaxLength n => "max_length must be >= 0, got " ++ .ofList (intDigits n)
  | .negativeMinLength n => "min_length must be >= 0, got " ++ .ofList (intDigits n)
  | .badHiddenWhen text => "hidden_when must be 'checked' or 'unchecked', got " ++ text
  | .badKind literal => literal ++ " is not a valid FieldKind"
  | .missing entry => entry
  | .mistyped entry => "unexpected type of " ++ entry

namespace Field

/-- Whether a field fulfils what every field has to; otherwise what it lacks first. -/
def check (f : Field) : Except FieldError Field := do
  if f.id = "" then throw .emptyId
  match f.maxLength with
  | some n => if n < 0 then throw (.negativeMaxLength n)
  | none => pure ()
  match f.minLength with
  | some n => if n < 0 then throw (.negativeMinLength n)
  | none => pure ()
  match f.hiddenWhen with
  | some text => if text ≠ "checked" ∧ text ≠ "unchecked" then throw (.badHiddenWhen text)
  | none => pure ()
  pure f

def isSelect (f : Field) : Bool :=
  f.kind = .select && !f.options.isEmpty

def isGenerated (f : Field) : Bool :=
  f.generationRule.any (· ≠ "")

end Field

/-! ## Fields as records -/

namespace Datum

def ofText (s : String) : Datum := .value (.text s)
def ofText? (s : Option String) : Datum := .value (s.elim .null .text)
def ofInt? (n : Option Int) : Datum := .value (n.elim .null fun n => .number (.int n))
def ofNumber? (n : Option Number) : Datum := .value (n.elim .null .number)
def ofBool? (b : Option Bool) : Datum := .value (b.elim .null .bool)

/-- Reads an optional entry: one that is missing is `missing`, and one that is null is nothing. -/
def optional {α : Type} (r : Datum) (entry : String) (missing : Option α)
    (read : Value → Option α) : Except FieldError (Option α) :=
  match r.entry? entry with
  | none => .ok missing
  | some (.value .null) => .ok none
  | some (.value v) =>
    match read v with
    | some a => .ok (some a)
    | none => .error (.mistyped entry)
  | some _ => .error (.mistyped entry)

def asText? : Value → Option String
  | .text s => some s
  | _ => none

def asInt? : Value → Option Int
  | .number (.int n) => some n
  | _ => none

def asNumber? : Value → Option Number
  | .number n => some n
  | _ => none

def asBool? : Value → Option Bool
  | .bool b => some b
  | _ => none

/-- The text of an entry that must be there. -/
def required (r : Datum) (entry : String) : Except FieldError String :=
  match r.entry? entry with
  | none => .error (.missing entry)
  | some (.value (.text s)) => .ok s
  | some _ => .error (.mistyped entry)

end Datum

def SelectOption.toRecord (o : SelectOption) : Datum :=
  .record [("value", .ofText o.value), ("label", .ofText? o.label),
    ("source_element_id", .ofText o.source)]

/-- Reads an option. Without a label it is labelled by its value. -/
def SelectOption.ofRecord (r : Datum) : Except FieldError SelectOption := do
  let value ← r.required "value"
  let label ← r.optional "label" (some value) Datum.asText?
  let source ← r.required "source_element_id"
  pure { value, label, source }

namespace Field

def toRecord (f : Field) : Datum :=
  .record [("id", .ofText f.id), ("name", .ofText f.name), ("kind", .ofText f.kind.name),
    ("svg_element_id", .ofText? f.elementId), ("identity", .ofText? f.identity),
    ("default_value", .value f.defaultValue), ("current_value", .value f.currentValue),
    ("max_length", .ofInt? f.maxLength), ("min_length", .ofInt? f.minLength),
    ("date_format", .ofText? f.dateFormat), ("generation_rule", .ofText? f.generationRule),
    ("generation_mode", .ofText? f.generationMode), ("depends_on", .ofText? f.dependsOn),
    ("editable", .ofBool? f.editable), ("options", .list (f.options.map (·.toRecord))),
    ("hidden_when", .ofText? f.hiddenWhen), ("rotation", .ofNumber? f.rotation),
    ("tracking_id", .ofBool? f.trackingId), ("tracking_link", .ofText? f.trackingLink),
    ("tracking_role", .ofText? f.trackingRole), ("grayscale", .ofBool? f.grayscale)]

/-- The kind that an entry names; a missing one is that of text. -/
def readKind (r : Datum) : Except FieldError Kind :=
  match r.entry? "kind" with
  | none => .ok .text
  | some d =>
    match d with
    | .value (.text name) =>
      match Kind.ofName? name with
      | some kind => .ok kind
      | none => .error (.badKind d.literal)
    | _ => .error (.badKind d.literal)

/-- The options of a select field; a missing or null entry has none. -/
def readOptions (r : Datum) : Except FieldError (List SelectOption) :=
  match r.entry? "options" with
  | some (.list items) => items.mapM SelectOption.ofRecord
  | some (.value .null) | none => .ok []
  | some _ => .error (.mistyped "options")

/-- The scalar of an entry; nothing if it is missing. -/
def readValue (r : Datum) (entry : String) : Except FieldError Value :=
  match r.entry? entry with
  | none => .ok .null
  | some (.value v) => .ok v
  | some _ => .error (.mistyped entry)

/-- The field of a record. A missing or empty name is made from the id, and a missing element id is the
id. -/
def draft (r : Datum) : Except FieldError Field := do
  let id ← r.required "id"
  let name ← r.optional "name" none Datum.asText?
  let kind ← readKind r
  pure {
    id, kind
    name := (name.filter (· ≠ "")).getD (Text.onChars (Text.replaceChar '_' ' ') id)
    elementId := ← r.optional "svg_element_id" (some id) Datum.asText?
    identity := ← r.optional "identity" none Datum.asText?
    defaultValue := ← readValue r "default_value"
    currentValue := ← readValue r "current_value"
    maxLength := ← r.optional "max_length" none Datum.asInt?
    minLength := ← r.optional "min_length" none Datum.asInt?
    dateFormat := ← r.optional "date_format" none Datum.asText?
    generationRule := ← r.optional "generation_rule" none Datum.asText?
    generationMode := ← r.optional "generation_mode" none Datum.asText?
    dependsOn := ← r.optional "depends_on" none Datum.asText?
    editable := ← r.optional "editable" (some true) Datum.asBool?
    options := ← readOptions r
    hiddenWhen := ← r.optional "hidden_when" none Datum.asText?
    rotation := ← r.optional "rotation" none Datum.asNumber?
    trackingId := ← r.optional "tracking_id" (some false) Datum.asBool?
    trackingLink := ← r.optional "tracking_link" none Datum.asText?
    trackingRole := ← r.optional "tracking_role" none Datum.asText?
    grayscale := ← r.optional "grayscale" (some false) Datum.asBool? }

/-- Reads a field. -/
def ofRecord (r : Datum) : Except FieldError Field := do
  check (← draft r)

/-- The field with entries of its record changed. A changed field is not checked again. -/
def assign (f : Field) (changes : List (String × Datum)) : Except FieldError Field :=
  match f.toRecord with
  | .record entries => draft (.record (changes ++ entries))
  | _ => .ok f

end Field

end SvgForm
