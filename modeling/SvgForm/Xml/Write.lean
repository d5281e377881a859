import SvgForm.Xml.Element
/-! # Writing markup

The root declares every namespace of the tree, sorted by short form, before its own attributes. Well-known
namespaces have a fixed short form, the namespace of the language itself needs no declaration, and any
other gets `ns` with the number of namespaces met before it in document order.
-/

namespace SvgForm.Xml

/-- The well-known namespaces with their short forms; the empty one writes bare labels. -/
def shortForms : List (String × String) :=
  [(svgNamespace, ""), (xlinkNamespace, "xlink"), (xmlNamespace, "xml"),
    ("http://www.w3.org/1999/xhtml", "html"),
    ("http://www.w3.org/1999/02/22-rdf-syntax-ns#", "rdf"),
    ("http://schemas.xmlsoap.org/wsdl/", "wsdl"),
    ("http://www.w3.org/2001/XMLSchema", "xs"),
    ("http://www.w3.org/2001/XMLSchema-instance", "xsi"),
    ("http://purl.org/dc/elements/1.1/", "dc")]

/-- Namespaces with the short forms they are written by, in the order in which they were met. -/
abbrev Spaces := List (String × String)

/-- The short form for a namespace, where `met` are the namespaces before it. -/
def Spaces.shortForm (met : Spaces) (uri : String) : String :=
  match met.lookup uri with
  | some short => short
  | none =>
    match shortForms.lookup uri with
    | some short => short
    | none => "ns" ++ .ofList (Nat.toDigits 10 met.length)

/-- The namespaces met once a name is written too. -/
def Spaces.meet (met : Spaces) (name : String) : Except NameError Spaces := do
  match (← splitName name).1 with
  | none => pure met
  | some uri =>
    let short := met.shortForm uri
    pure (if short = "xml" ∨ (met.lookup uri).isSome then met else met ++ [(uri, short)])

/-- The names of a tree in document order, an element's before those of its attributes. -/
def namesOf (elements : List Element) : List String :=
  elements.flatMap fun e => e.name :: e.attributes.map Prod.fst

/-- A name as it is written. -/
def Spaces.write (met : Spaces) (name : String) : Except NameError (List Char) := do
  match ← splitName name with
  | (none, label) => pure label.toList
  | (some uri, label) =>
    let short := met.shortForm uri
    pure (if short = "" then label.toList else short.toList ++ ':' :: label.toList)

/-- A character of text. -/
def escapeTextChar : Char → List Char
  | '&' => "&amp;".toList
  | '<' => "&lt;".toList
  | '>' => "&gt;".toList
  | c => [c]

/-- A character of an attribute's value. -/
def escapeValueChar : Char → List Char
  | '"' => "&quot;".toList
  | '\r' => "&#13;".toList
  | '\n' => "&#10;".toList
  | '\t' => "&#09;".toList
  | c => escapeTextChar c

def escapeText (s : String) : List Char :=
  s.toList.flatMap escapeTextChar

def escapeValue (s : String) : List Char :=
  s.toList.flatMap escapeValueChar

/-- An attribute, after the space that parts it from what comes before. -/
def writeAttribute (name : List Char) (value : String) : List Char :=
  ' ' :: name ++ "=\"".toList ++ escapeValue value ++ ['"']

/-- The declarations of namespaces, sorted by short form. -/
def Spaces.declarations (met : Spaces) : List Char :=
  (met.mergeSort fun a b => decide (a.2 ≤ b.2)).flatMap fun (uri, short) =>
    writeAttribute ("xmlns".toList ++ if short = "" then [] else ':' :: short.toList) uri

/-- Writes trees, each with its tail. `declared` comes before the attributes of the first one. -/
def writeForest (met : Spaces) (declared : List Char) : Forest Element → Except NameError (List Char)
  | .nil => pure []
  | .node e children siblings => do
    let name ← met.write e.name
    let attributes ← e.attributes.mapM fun (n, v) => do pure (writeAttribute (← met.write n) v)
    let head := '<' :: name ++ declared ++ attributes.flatten
    let inner ← writeForest met [] children
    let body :=
      match children, e.text with
      | .nil, "" => " />".toList
      | _, _ => '>' :: escapeText e.text ++ inner ++ "</".toList ++ name ++ ['>']
    let rest ← writeForest met [] siblings
    pure (head ++ body ++ escapeText e.tail ++ rest)

/-- The markup of a document with this root. -/
def write (root : Forest Element) : Except NameError String := do
  let met ← (namesOf root.toList).foldlM Spaces.meet []
  pure (.ofList (← writeForest met met.declarations root))

end SvgForm.Xml
