import SvgForm.Forest
import SvgForm.Xml.Entity
/-! # Elements

An element has a name, attributes, the text before its first child, and a tail: the text between it and
what follows it. Read content becomes a forest of elements whose names are not yet expanded.
-/

namespace SvgForm.Xml

/-- An element apart from its children. Names are expanded; attributes stand in document order. -/
structure Element where
  name : String
  attributes : List (String × String) := []
  text : String := ""
  tail : String := ""
  deriving DecidableEq

/-- The value of an attribute. -/
def Element.attribute? (e : Element) (name : String) : Option String :=
  e.attributes.lookup name

/-- The attributes with one set; a new one comes last. -/
def setAttribute (name value : String) : List (String × String) → List (String × String)
  | [] => [(name, value)]
  | (n, v) :: rest => if n = name then (n, value) :: rest else (n, v) :: setAttribute name value rest

/-- An element as markup writes it. -/
structure Draft where
  name : QName
  attributes : List (QName × List Piece)
  text : List Char
  tail : List Char

/-- Content that is being read from its end: the text it starts with so far, and the elements after. -/
structure Content where
  text : List Char := []
  elements : Forest Draft := .nil

/-- Puts a token before content. `stopped` holds the end tags whose start tags are still to come, each
with the content that follows it. -/
def Content.push (t : Token) (here : Content) (stopped : List (QName × Content)) :
    Option (Content × List (QName × Content)) :=
  match t with
  | .char c => some ({ here with text := c :: here.text }, stopped)
  | .entity _ => none
  | .stop name => some ({}, (name, here) :: stopped)
  | .start name attributes true =>
    some ({ elements := .node ⟨name, attributes, [], here.text⟩ .nil here.elements }, stopped)
  | .start name attributes false =>
    match stopped with
    | [] => none
    | (other, after) :: stopped =>
      if other = name then
        let draft := ⟨name, attributes, here.text, after.text⟩
        some ({ elements := .node draft here.elements after.elements }, stopped)
      else none

/-- The content that tokens make up, with the end tags whose start tags are missing. -/
def Content.read : List Token → Option (Content × List (QName × Content))
  | [] => some ({}, [])
  | t :: ts => (Content.read ts).bind fun (here, stopped) => Content.push t here stopped

/-- The content that tokens make up; nothing if tags do not match. -/
def Content.ofTokens? (ts : List Token) : Option Content :=
  match Content.read ts with
  | some (here, []) => some here
  | _ => none

end SvgForm.Xml
