import SvgForm.Field
import SvgForm.Identity.Basic
/-! # The fields of a document

The identified elements of a document are its fields: content elements below the root with an id that is
not blank, placeholders apart. Options of one base make up one select field, which stands where its first
option does.
-/

namespace SvgForm

/-- An identified element. -/
structure Candidate where
  handle : Handle
  /-- Its id in full. -/
  source : String
  identifier : Identifier
  /-- What it shows. -/
  text : String

namespace Candidate

/-- The base as people read it. -/
def label (c : Candidate) : String :=
  Text.onChars Identifier.humanize c.identifier.base

/-- The choice that the element stands for, if its identifier says that it is an option. -/
def option? (c : Candidate) : Option SelectOption :=
  c.identifier.selectValue.map fun value =>
    let shown := if c.text = "" then Text.onChars Identifier.humanize value else c.text
    { value := shown, label := some shown, source := c.source }

/-- The candidates that a field starts at: all but the options whose base has an option already. -/
def openers (grouped : List String) : List Candidate → List Candidate
  | [] => []
  | c :: rest =>
    if c.identifier.selectValue.isNone then c :: openers grouped rest
    else if c.identifier.base ∈ grouped then openers grouped rest
    else c :: openers (c.identifier.base :: grouped) rest

/-- The options of a base. -/
def optionsOf (base : String) (all : List Candidate) : List Candidate :=
  all.filter fun c => c.identifier.selectValue.isSome && c.identifier.base = base

/-- The field of an element that is no option. Without extensions it is fixed. -/
def plainField (c : Candidate) (id : String) (identity : Option String) : Field :=
  let i := c.identifier
  if i.hasExtensions then
    let kind := i.kind.getD .text
    let value := if kind = .checkbox then .bool false else .text c.text
    { id, kind, identity
      name := c.label
      elementId := some c.source
      defaultValue := value
      currentValue := value
      maxLength := i.maxLength.map Int.ofNat
      minLength := i.minLength.map Int.ofNat
      dateFormat := i.dateFormat
      generationRule := i.generationRule
      generationMode := i.generationMode
      dependsOn := i.dependsOn
      editable := some i.editable
      hiddenWhen := i.hiddenWhen
      trackingId := some i.trackingId
      trackingLink := i.trackingLink
      trackingRole := i.trackingRole
      grayscale := some (i.grayscale && kind.isImage) }
  else
    { id, identity
      name := c.label
      kind := .static
      elementId := some c.source
      defaultValue := .text c.text
      currentValue := .text c.text
      editable := some false }

/-- The select field that starts at an option. Its value is that option's; its role is the last one that an
option of its base names. -/
def selectField (c : Candidate) (first : SelectOption) (all : List Candidate) (id : String)
    (identity : Option String) : Field :=
  let group := optionsOf c.identifier.base all
  { id, identity
    name := c.label
    kind := .select
    elementId := some c.source
    defaultValue := .text first.value
    currentValue := .text first.value
    editable := some c.identifier.editable
    options := group.filterMap (·.option?)
    trackingRole := (group.filterMap (·.identifier.trackingRole)).getLast? }

/-- The field that starts at a candidate. -/
def field (c : Candidate) (all : List Candidate) (id : String) (identity : Option String) : Field :=
  match c.option? with
  | none => c.plainField id identity
  | some first => c.selectField first all id identity

end Candidate

namespace Document

/-- The identified elements in document order. -/
def candidates (d : Document) (phrase : String) : List Candidate :=
  d.handles.filterMap fun h =>
    match d.get? h "id" with
    | none => none
    | some source =>
      if trimmed source = "" ∨ h = root ∨ !d.isContent h ∨ d.isPlaceholder h phrase then none
      else some { handle := h, source, identifier := .parse source, text := d.displayText h }

/-- The fields in document order. Field ids are unique keys for the bases. -/
def fields (d : Document) (phrase : String) : Except FieldError (List Field) :=
  let all := d.candidates phrase
  let openers := Candidate.openers [] all
  let keys : UniqueKeys := { reserved := all.map (·.identifier.base) }
  let ids := (keys.claimAll (openers.map (·.identifier.base))).1
  let identities := d.identities identityAttribute
  (openers.zip ids).mapM fun (c, id) => (c.field all id (identities.lookup c.handle)).check

/-- The same where numbers may have so many digits only. All identifiers are read before any field is made. -/
def readFields (limit : Option Nat) (d : Document) (phrase : String) : Except FieldError (List Field) :=
  match (d.candidates phrase).findSome? (·.identifier.excess? limit) with
  | some e => .error (.tooManyDigits e)
  | none => d.fields phrase

end Document

end SvgForm
