import SvgForm.Document.Basic
import SvgForm.Text.Blank
import SvgForm.Text.Lower
import SvgForm.Text.Word
/-! # Inline styles

An inline style is a row of declarations `name: value`, parted by semicolons. It is changed declaration by
declaration. Whoever only looks for the value of a property reads it more freely: a name is the word right
before a colon, whatever stands before that word.
-/

namespace SvgForm.Style

/-- The name and the value of a declaration. -/
abbrev Declaration := List Char × List Char

/-! ## Changing a style -/

/-- The name and the value in a text that is parted at its first colon. -/
def declaration (text : List Char) : Declaration :=
  match Text.cutAtChar? ':' text with
  | some (name, value) => (Text.trim name, Text.trim value)
  | none => (Text.trim text, [])

/-- The declarations with a name. -/
def declarations (style : List Char) : List Declaration :=
  ((style.splitOn ';').map declaration).filter (·.1 ≠ [])

def write (d : Declaration) : List Char :=
  d.1 ++ ": ".toList ++ d.2

/-- Writes declarations in order. -/
def writeAll (ds : List Declaration) : List Char :=
  "; ".toList.intercalate (ds.map write)

/-- The style with a property set, which comes last. -/
def setProperty (name value style : List Char) : List Char :=
  writeAll ((declarations style).filter (·.1 ≠ name) ++ [(name, value)])

/-! ## Looking up a property -/

/-- The characters of names that are looked for. -/
def isNameChar (c : Char) : Bool :=
  Text.isWord c || c = '-'

/-- The word at the end of a text, blanks after it apart. The text is given backwards. -/
def nameBefore (backwards : List Char) : List Char :=
  ((backwards.dropWhile Text.isBlank).takeWhile isNameChar).reverse

/-- The first colon with a word before it and something after it parts a name, in small letters, from a
value. -/
def property? (backwards : List Char) : List Char → Option (String × String)
  | [] => none
  | c :: rest =>
    if c = ':' ∧ nameBefore backwards ≠ [] ∧ rest ≠ [] then
      some (lowered (.ofList (nameBefore backwards)), .ofList (Text.trim rest))
    else property? (c :: backwards) rest

/-- The value of a property; of several the last. -/
def lookup? (style : List Char) (name : String) : Option String :=
  (((style.splitOn ';').filterMap (property? [])).reverse).lookup name

end SvgForm.Style

namespace SvgForm.Document

/-- Sets a property of an element's inline style. -/
def setStyle (d : Document) (h : Handle) (name value : String) : Document :=
  let style := (d.get? h "style").getD ""
  d.set h "style" (.ofList (Style.setProperty name.toList value.toList style.toList))

/-- What an element says about a property itself: in its style, unless that value is empty, or else in the
attribute of that name. -/
def ownProperty? (d : Document) (h : Handle) (name : String) : Option String :=
  let style := (d.get? h "style").getD ""
  ((Style.lookup? style.toList name).filter (· ≠ "")).or (d.get? h name)

end SvgForm.Document
