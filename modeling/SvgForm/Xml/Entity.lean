import SvgForm.Xml.Token
/-! # Declarations and the expansion of references

A document may declare entities, which stand for text, and attributes that elements have by default. Text
is put in place of references to any depth; as many steps suffice as there are entities, since a longer
chain would use one of them inside itself, and that is refused. So is a document that would grow too far:
how much its references stand for is worked out before any text is put in their place.
-/

namespace SvgForm.Xml

/-- An attribute that elements of a name have, with the value they get when they do not give one. -/
structure AttributeDecl where
  element : QName
  name : QName
  /-- Whether spaces at the ends of the value and repeated spaces do not count. -/
  collapsed : Bool
  value : Option (List Char)

/-- What a document declares before its root element. -/
structure Declarations where
  /-- Each entity with its text, or without one when that stands elsewhere. The first of a name counts. -/
  entities : List (List Char × Option (List Char)) := []
  /-- Of two declarations of one attribute the first counts. -/
  attributes : List AttributeDecl := []
  /-- Whether the document declares that nothing outside it matters. -/
  standalone : Bool := false
  /-- Whether declarations may stand elsewhere, where they are not read. -/
  partly : Bool := false
  /-- Whether declarations are still taken over. -/
  active : Bool := true
  /-- How many bytes may still be put in place of references. -/
  room : Nat := 0

/-- Whether a reference to an entity that is not declared is an error in an attribute. -/
def Declarations.strict (d : Declarations) : Bool :=
  !d.partly || d.standalone

/-- The text with every line end a newline: a carriage return alone or before a newline ends a line. -/
def normalizeNewlines : List Char → List Char
  | [] => []
  | '\r' :: '\n' :: s => '\n' :: normalizeNewlines s
  | '\r' :: s => '\n' :: normalizeNewlines s
  | c :: s => c :: normalizeNewlines s

/-! ## Growth -/

/-- The number of bytes of a text. -/
def byteCount (s : List Char) : Nat :=
  s.foldl (fun n c => n + c.utf8Size) 0

/-- How many bytes may be put in place of references in a document of so many: together they stay below
eight mebibytes, or within a hundred times the document. -/
def roomFor (bytes : Nat) : Nat :=
  max (Nat.pow 2 23 - 1 - bytes) (99 * bytes)

def Piece.entity? : Piece → Option (List Char)
  | .char _ => none
  | .entity name => some name

/-- The entities that a token refers to. -/
def Token.entities : Token → List (List Char)
  | .entity name => [name]
  | .start _ attributes _ => attributes.flatMap fun a => a.2.filterMap Piece.entity?
  | _ => []

/-- The entities that a text refers to. -/
def entitiesIn : List Char → List (List Char)
  | [] => []
  | c :: s =>
    match if c = '&' then reference? s else none with
    | some (.entity name, _) => name :: entitiesIn s
    | _ => entitiesIn s

/-- Names of entities with the number of bytes that each stands for. -/
abbrev Weights := List (List Char × Nat)

def Weights.total (w : Weights) (names : List (List Char)) : Nat :=
  names.foldl (fun n name => n + (w.lookup name).getD 0) 0

/-- The weights of entities by those of the entities in them, worked out anew until they stay the same,
but at most `depth` times. -/
def weigh (texts : List (List Char × Nat × List (List Char))) : (depth : Nat) → Weights → Weights
  | 0, w => w
  | depth + 1, w =>
    let next := texts.map fun (name, own, inner) => (name, own + w.total inner)
    if next = w then w else weigh texts depth next

/-- The weight of each entity: its own text and all that is put in it. -/
def Declarations.weights (d : Declarations) : Weights :=
  let texts := d.entities.map fun (name, text) =>
    (name, byteCount (text.getD []), entitiesIn (text.getD []))
  weigh texts (d.entities.length + 1) []

/-- Takes room for the entities of these names; nothing if there is not enough of it. -/
def Declarations.take? (d : Declarations) (names : List (List Char)) : Option Declarations :=
  let weight := d.weights.total names
  if d.room < weight then none else some { d with room := d.room - weight }

/-! ## Expansion -/

/-- The text that stands for a reference in an attribute; nothing if it is an error. -/
def Declarations.valueText? (d : Declarations) (name : List Char) : Option (List Char) :=
  match d.entities.lookup name with
  | some text => text
  | none => if d.strict then none else some []

/-- The value of an attribute, through references to a depth. -/
def expandValue (d : Declarations) : (depth : Nat) → List Piece → Option (List Char)
  | 0, pieces =>
    pieces.mapM fun
      | Piece.char c => some c
      | Piece.entity _ => none
  | depth + 1, pieces =>
    (pieces.mapM fun
      | Piece.char c => some [c]
      | Piece.entity name => do expandValue d depth (← valuePieces? (← d.valueText? name))).map
      List.flatten

def Declarations.value? (d : Declarations) (pieces : List Piece) : Option (List Char) :=
  expandValue d (d.entities.length + 1) pieces

/-- A value without spaces at its ends and with single ones inside. -/
def collapseSpaces (value : List Char) : List Char :=
  [' '].intercalate ((value.splitOn ' ').filter (· ≠ []))

/-- Whether every element that the tokens start is stopped among them, and no other. -/
def balanced : (opened : List QName) → List Token → Bool
  | opened, [] => opened.isEmpty
  | opened, .start name _ false :: ts => balanced (name :: opened) ts
  | [], .stop _ :: _ => false
  | name :: opened, .stop other :: ts => name = other && balanced opened ts
  | opened, _ :: ts => balanced opened ts

/-- The tokens with balanced content in place of references, to a depth. -/
def expandContent (d : Declarations) : (depth : Nat) → List Token → Option (List Token)
  | 0, ts =>
    ts.mapM fun
      | Token.entity _ => none
      | t => some t
  | depth + 1, ts =>
    (ts.mapM fun
      | Token.entity name => do
        let some text ← d.entities.lookup name | none
        let inner ← expandContent d depth (← tokens? text)
        if balanced [] inner then some inner else none
      | t => some [t]).map List.flatten

def Declarations.content? (d : Declarations) (ts : List Token) : Option (List Token) :=
  expandContent d d.entities.length ts

end SvgForm.Xml
