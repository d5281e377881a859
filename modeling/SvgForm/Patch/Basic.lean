import SvgForm.Datum
/-! # Patches

A patch is one recorded edit: it names its target, an attribute, and a value. Two attributes are special:
one stands for the text of the element, the other for its place among its siblings.
-/

namespace SvgForm

/-- Where an element is to go: after one sibling or before another. -/
structure ReorderTarget where
  after : Option String
  before : Option String
  deriving DecidableEq

inductive PatchValue
  | scalar (v : Value)
  | target (t : ReorderTarget)

structure Patch where
  id : String
  name : String
  value : PatchValue

/-- What was given is no patch. -/
inductive PatchError
  | invalid

namespace Patch

def textName : String := "innerText"
def reorderName : String := "reorder"

def isText (p : Patch) : Bool := p.name = textName
def isReorder (p : Patch) : Bool := p.name = reorderName

end Patch

/-! ## Reading -/

namespace Datum

/-- The text or null of an entry. -/
def textEntry? : Option Datum → Option (Option String)
  | none | some (.value .null) => some none
  | some (.value (.text s)) => some (some s)
  | _ => none

/-- Reads a target. An entry may have either of two names, of which the first counts. -/
def asTarget? (r : Datum) : Option ReorderTarget := do
  let after ← textEntry? ((r.entry? "after_id").or (r.entry? "afterId"))
  let before ← textEntry? ((r.entry? "before_id").or (r.entry? "beforeId"))
  pure { after, before }

/-- Reads the value of a patch; a missing one is null. -/
def asPatchValue? : Option Datum → Option PatchValue
  | none => some (.scalar .null)
  | some (.value v) => some (.scalar v)
  | some (.record entries) => (Datum.record entries).asTarget?.map .target
  | some (.list _) => none

/-- Reads a patch. -/
def toPatch (r : Datum) : Except PatchError Patch :=
  match r.entry? "id", r.entry? "attribute", asPatchValue? (r.entry? "value") with
  | some (.value (.text id)), some (.value (.text name)), some v => .ok { id, name, value := v }
  | _, _, _ => .error .invalid

end Datum

/-! ## Texts -/

/-- A text or null as a literal. -/
def literalOrNone (s : Option String) : String :=
  s.elim Value.null.literal fun s => .ofList (Text.quoted s.toList)

/-- A target as the text of an element. -/
def ReorderTarget.display (t : ReorderTarget) : String :=
  "afterId=" ++ literalOrNone t.after ++ " beforeId=" ++ literalOrNone t.before

/-- The value as a document shows it. -/
def PatchValue.display : PatchValue → String
  | .scalar v => v.display
  | .target t => t.display

end SvgForm
