import SvgForm.Xml.Element
/-! # Namespaces

Attributes called `xmlns` bind namespaces for their element and what it contains: `xmlns` itself the
namespace of labels without a short form, `xmlns:a` that of the short form `a`. Names are expanded by the
nearest binding.
-/

namespace SvgForm.Xml

/-- Short forms with their namespaces, the nearest first; the empty namespace unbinds. -/
abbrev Bindings := List (Option (List Char) × List Char)

/-- What is bound without a declaration. -/
def Bindings.initial : Bindings :=
  [(some "xml".toList, xmlNamespace.toList)]

def QName.declaresNamespace (q : QName) : Bool :=
  match q.space with
  | some space => space = "xmlns".toList
  | none => q.label = "xmlns".toList

/-- Binds the namespace that an attribute declares. The two namespaces of the language itself are bound
to nothing else, no short form is unbound, and a namespace must not hold a closing brace. -/
def Bindings.declare? (b : Bindings) (q : QName) (uri : List Char) : Option Bindings :=
  let space := q.space.map fun _ => q.label
  if space ≠ none ∧ uri = [] then none
  else if space = some "xmlns".toList then none
  else if (space == some "xml".toList) != (uri == xmlNamespace.toList) then none
  else if uri = xmlnsNamespace.toList then none
  else if '\x7d' ∈ uri then none
  else some ((space, uri) :: b)

/-- The expanded name for a name whose namespace is bound so. -/
def QName.expand (q : QName) (uri : List Char) : String :=
  if uri = [] then .ofList q.label else expanded (.ofList uri) (.ofList q.label)

/-- The expanded name of an element. -/
def Bindings.elementName? (b : Bindings) (q : QName) : Option String :=
  match q.space, b.lookup q.space with
  | none, none => some (.ofList q.label)
  | _, some uri => some (q.expand uri)
  | some _, none => none

/-- The expanded name of an attribute; one without a short form is in no namespace. -/
def Bindings.attributeName? (b : Bindings) (q : QName) : Option String :=
  match q.space with
  | none => some (.ofList q.label)
  | some _ => (b.lookup q.space).map q.expand

/-- The values of an element's attributes, followed by those it has by default. -/
def Declarations.attributesOf? (d : Declarations) (e : Draft) : Option (List (QName × List Char)) := do
  if !(e.attributes.map Prod.fst).Nodup then none
  let declared := d.attributes.filter (·.element = e.name)
  let given ← e.attributes.mapM fun (q, pieces) => do
    let value ← d.value? pieces
    let collapsed := (declared.find? (·.name = q)).any (·.collapsed)
    pure (q, if collapsed then collapseSpaces value else value)
  let missing := declared.filter fun a => a.name ∉ e.attributes.map Prod.fst
  pure (given ++ missing.filterMap fun a => a.value.map (a.name, ·))

/-- The element and the bindings inside it. -/
def Draft.resolve? (d : Declarations) (b : Bindings) (e : Draft) : Option (Element × Bindings) := do
  let all ← d.attributesOf? e
  let inner ← all.foldlM (fun b (q, value) =>
    if q.declaresNamespace then b.declare? q value else some b) b
  let name ← inner.elementName? e.name
  let attributes ← (all.filter fun a => !a.1.declaresNamespace).mapM fun (q, value) => do
    pure (← inner.attributeName? q, String.ofList value)
  if !(attributes.map Prod.fst).Nodup then none
  pure (⟨name, attributes, .ofList e.text, .ofList e.tail⟩, inner)

/-- The elements with their names expanded. -/
def resolveAll? (d : Declarations) (b : Bindings) : Forest Draft → Option (Forest Element)
  | .nil => some .nil
  | .node e children siblings => do
    let (element, inner) ← e.resolve? d b
    pure (.node element (← resolveAll? d inner children) (← resolveAll? d b siblings))

end SvgForm.Xml
