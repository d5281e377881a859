import SvgForm.Value
import SvgForm.Xml.Element
/-! # Documents

A document keeps its elements in the order in which they were made, and calls each by its place there: its
handle. The outline is the tree of the handles that hang together with the root; elements that were taken
out of the tree keep their handles and whatever is below them.
-/

namespace SvgForm

abbrev Handle := Nat

structure Document where
  elements : Array Xml.Element
  /-- One tree: that of the root, whose handle is nought. -/
  outline : Forest Handle
  /-- The trees that no longer hang together with the root. -/
  detached : Forest Handle

/-- A handle that no element has. -/
structure UnknownHandle where
  handle : Handle

/-- The wording of an error. -/
def UnknownHandle.message (e : UnknownHandle) : String :=
  "unknown element handle: " ++ .ofList (Text.natDigits e.handle)

namespace Document

/-- The handle of the root. -/
def root : Handle := 0

/-- The handle that is named, if an element has it. -/
def handle? (d : Document) (h : Handle) : Except UnknownHandle Handle :=
  if h < d.elements.size then .ok h else .error ⟨h⟩

/-- The element of a handle; a blank one for a handle that no element has. -/
def element (d : Document) (h : Handle) : Xml.Element :=
  d.elements[h]?.getD { name := "" }

/-- The handles of the tree in document order, the root first. -/
def handles (d : Document) : List Handle :=
  d.outline.toList

/-- Makes a document of a root element. Handles number the elements in document order. -/
def ofTree (root : Forest Xml.Element) : Document where
  elements := root.toList.toArray
  outline := root.number 0
  detached := .nil

/-- The root element with everything below it. -/
def toTree (d : Document) : Forest Xml.Element :=
  d.outline.map d.element

/-- A copy whose handles are those of the document. Elements that hang together with the root are copied;
any other handle gets an empty element of its own. -/
def copy (d : Document) : Document where
  elements := d.elements.mapIdx fun h e => if h ∈ d.handles then e else { name := "detached" }
  outline := d.outline
  detached := .ofRoots ((List.range d.elements.size).filter (· ∉ d.handles))

/-! ## Structure -/

/-- The name without its namespace. -/
def tag (d : Document) (h : Handle) : String :=
  Xml.localName (d.element h).name

/-- What is below an element, wherever the element is. -/
def below (d : Document) (h : Handle) : Forest Handle :=
  ((d.outline.childrenOf? h).or (d.detached.childrenOf? h)).getD .nil

def children (d : Document) (h : Handle) : List Handle :=
  (d.below h).roots

/-- The elements around one that hangs together with the root, the nearest first. -/
def ancestors (d : Document) (h : Handle) : List Handle :=
  (d.outline.pathTo? h []).getD []

/-- The element around one that hangs together with the root. -/
def parent? (d : Document) (h : Handle) : Option Handle :=
  (d.ancestors h).head?

/-! ## Attributes -/

/-- The value of an attribute, whose name may be in short form. -/
def get? (d : Document) (h : Handle) (name : String) : Option String :=
  (d.element h).attribute? (Xml.qualify name)

def has (d : Document) (h : Handle) (name : String) : Bool :=
  (d.get? h name).isSome

/-- Changes an element. -/
def mapElement (d : Document) (h : Handle) (f : Xml.Element → Xml.Element) : Document :=
  { d with elements := d.elements.modify h f }

def set (d : Document) (h : Handle) (name value : String) : Document :=
  d.mapElement h fun e =>
    { e with attributes := Xml.setAttribute (Xml.qualify name) value e.attributes }

def remove (d : Document) (h : Handle) (name : String) : Document :=
  d.mapElement h fun e =>
    { e with attributes := e.attributes.filter (·.1 ≠ Xml.qualify name) }

/-- The first element of the tree whose attribute has the value. Each name is sought in the whole tree
before the next. -/
def find? (d : Document) (value : String) (names : List String) : Option Handle :=
  if value = "" then none
  else names.findSome? fun name => d.handles.find? fun h => d.get? h name = some value

/-! ## Changes of structure -/

/-- Makes an element without children, whose text is `text`. What was below it is detached. -/
def setText (d : Document) (h : Handle) (text : String) : Document where
  elements := d.elements.modify h fun e => { e with text }
  outline := d.outline.mapChildren h fun _ => .nil
  detached := (d.detached.mapChildren h fun _ => .nil).append (d.below h)

def clear (d : Document) (h : Handle) : Document :=
  d.setText h ""

/-- Makes a new last child, whose handle is the first one that is free. -/
def appendElement (d : Document) (h : Handle) (e : Xml.Element) : Document where
  elements := d.elements.push e
  outline := d.outline.mapChildren h fun f => f.append (.ofRoots [d.elements.size])
  detached := d.detached.mapChildren h fun f => f.append (.ofRoots [d.elements.size])

/-- Makes a new last child with a tag of the language, attributes, whose names may be in short form, and
text. -/
def appendChild (d : Document) (h : Handle) (tag : String) (attributes : List (String × String))
    (text : String) : Document :=
  d.appendElement h
    { name := Xml.expanded Xml.svgNamespace tag
      attributes := attributes.foldl (fun all (n, v) => Xml.setAttribute (Xml.qualify n) v all) []
      text }

/-- Moves an element next to another with the same parent; nothing if they do not have one. The text
after the element moves along. -/
def move? (d : Document) (side : Forest.Side) (h reference : Handle) : Option Document :=
  if h = reference then none
  else (d.outline.move? side h reference).map fun outline => { d with outline }

end Document

end SvgForm
