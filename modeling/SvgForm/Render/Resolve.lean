import SvgForm.Field
import SvgForm.Rule.Basic
/-! # Resolving values

What a field renders with: the part of another field's value that it depends on; or what its rule makes,
if it is always to be made or no value is given; or the given value, or else its current one. Fields are
resolved in order, and each sees the values that the fields before it got.
-/

namespace SvgForm

namespace Field

/-- The value given for a field, or else its current one. -/
def given (f : Field) (values : KnownValues) : Value :=
  (values.lookup f.id).getD f.currentValue

/-- What other fields see of a value: the label of the option it chooses, and otherwise the value. -/
def exposed (f : Field) (v : Value) : Value :=
  if f.kind = .select then
    match f.options.find? (·.value = v.display) with
    | some o => o.label.elim .null .text
    | none => v
  else v

/-- The reference that the field's value is taken from. An empty one is none. -/
def dependency? (f : Field) : Option String :=
  f.dependsOn.filter (· ≠ "")

/-- The rule by which a value is made, if it is to be. An empty rule is none. -/
def activeRule? (f : Field) (given : Value) : Option String :=
  f.generationRule.filter fun rule =>
    rule ≠ "" ∧ (f.generationMode = some "auto" ∨ given.isBlank)

/-- The value a field renders with. -/
def resolve (f : Field) (values known : KnownValues) (d : Draws) : Value × Draws :=
  match f.dependency? with
  | some reference => (.text (Reference.resolveDependency known reference), d)
  | none =>
    match f.activeRule? (f.given values) with
    | some rule =>
      let (made, d) := Rule.generate rule.toList known f.maxLength d
      (.text (.ofList made), d)
    | none => (f.given values, d)

/-- What is known before any field is resolved. -/
def initialValues (values : KnownValues) (fields : List Field) : KnownValues :=
  fields.foldl (fun known f => (f.id, f.exposed (f.given values)) :: known) []

/-- The ids of changed fields and of the fields that depend on them. Only dependencies on fields before
are followed. -/
def affected (changed : List String) : List Field → List String
  | [] => changed
  | f :: rest =>
    match f.dependency? with
    | some reference =>
      if String.ofList (Reference.baseName reference.toList) ∈ changed then
        affected (f.id :: changed) rest
      else affected changed rest
    | none => affected changed rest

/-- The fields to be rendered: those affected by changes, or all of them. -/
def isTarget (fields : List Field) (changed : Option (List String)) (f : Field) : Bool :=
  changed.all fun ids => f.id ∈ affected ids fields

/-- Resolves the fields that are targets, in order. -/
def resolveFrom (target : Field → Bool) (values : KnownValues) :
    List Field → KnownValues → Draws → List (Field × Value)
  | [], _, _ => []
  | f :: rest, known, d =>
    if target f then
      let (v, d) := f.resolve values known d
      (f, v) :: resolveFrom target values rest ((f.id, f.exposed v) :: known) d
    else resolveFrom target values rest known d

/-- The fields to be rendered with their values. -/
def resolveAll (fields : List Field) (values : KnownValues) (changed : Option (List String))
    (d : Draws) : List (Field × Value) :=
  resolveFrom (isTarget fields changed) values fields (initialValues values fields) d

end Field

end SvgForm
