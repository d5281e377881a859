import SvgForm.Decimal.Read
import SvgForm.Document.Session
import SvgForm.Style
/-! # The font of an element

An element's own family and size count; where it has none, those of the elements around it do, the nearest
first, each on its own.
-/

namespace SvgForm

structure Font where
  family : String
  size : Float

namespace Font

/-- The font of an element about whose font nothing is said. -/
def standard : Font := ⟨"Arial", 16.0⟩

def isQuote (c : Char) : Bool :=
  c = '\'' || c = '"'

/-- The first family of a list of families, without blanks and then quotes around it. -/
def family? (value : String) : Option String :=
  let first := Text.trim (Text.beforeChar ',' value.toList)
  let bare := Text.dropEndWhile isQuote (first.dropWhile isQuote)
  if bare = [] then none else some (.ofList bare)

/-- The digits at the start of a text, with a point and digits after it if there are any. -/
def numeral (text : List Char) : List Char :=
  let rest := text.dropWhile Text.isDigit
  let places := match rest with
    | '.' :: rest => rest.takeWhile Text.isDigit
    | _ => []
  text.takeWhile Text.isDigit ++ if places = [] then [] else '.' :: places

/-- The first numeral in a text; nothing if it has a minus sign. -/
def firstNumeral? : List Char → Option (List Char)
  | [] => none
  | c :: text =>
    if Text.isDigit c then some (numeral (c :: text))
    else if c = '-' ∧ text.head?.any Text.isDigit then none
    else firstNumeral? text

/-- The size that a text starts to write, whatever its unit. A size is positive. -/
def size? (value : String) : Option Float :=
  ((firstNumeral? value.toList).bind Decimal.read?).filter (0 < ·)

end Font

namespace Document

def ownFamily? (d : Document) (h : Handle) : Option String :=
  (d.ownProperty? h "font-family").bind Font.family?

def ownSize? (d : Document) (h : Handle) : Option Float :=
  (d.ownProperty? h "font-size").bind Font.size?

/-- Looks along a row of elements for a family and a size, as far as they are not found yet. The search is over
where both are found. -/
def seekFont (d : Document) (family : Option String) (size : Option Float) :
    List Handle → Option String × Option Float
  | [] => (family, size)
  | h :: rest =>
    let family := family.or (d.ownFamily? h)
    let size := size.or (d.ownSize? h)
    if family.isSome ∧ size.isSome then (family, size) else d.seekFont family size rest

/-- The font that is found along a row of elements, the nearest first. -/
def fontAlong (d : Document) (row : List Handle) : Font :=
  let (family, size) := d.seekFont none none row
  { family := family.getD Font.standard.family, size := size.getD Font.standard.size }

/-- The font in effect for an element. -/
def font (d : Document) (h : Handle) : Font :=
  d.fontAlong (h :: d.ancestors h)

end Document

/-- The font in effect for an element, whose ancestors are looked up as a session does. -/
def Session.font (s : Session) (h : Handle) : Font :=
  s.document.fontAlong (h :: s.ancestors h)

end SvgForm
