import SvgForm.Reference
import SvgForm.Rule.Draws
import SvgForm.Rule.Segment
/-! # Generation rules

A rule makes a value of its segments. A directive stands for random characters, for a text repeated, or
for a reference; a fill directive pads to the wanted length, and of several only the last does.
-/

namespace SvgForm.Rule

def lowerLetters : List Char := "abcdefghijklmnopqrstuvwxyz".toList
def upperLetters : List Char := "ABCDEFGHIJKLMNOPQRSTUVWXYZ".toList
def asciiDigits : List Char := "0123456789".toList

/-- The letters of a kind: small, capital, or both for any other kind. -/
def alphabet (kind : List Char) : List Char :=
  if kind = "rl".toList then lowerLetters
  else if kind = "ru".toList then upperLetters
  else lowerLetters ++ upperLetters

/-- The text before a number in brackets that ends the text, and the number. A newline may follow. -/
def counted? (text : List Char) : Option (List Char × Nat) := do
  let inner ← Text.before? [']'] (Text.dropNewlineAtEnd text)
  let (digits, word) ← Text.cutAtChar? '[' inner.reverse
  let n ← Text.readNat? digits.reverse
  pure (word.reverse, n)

/-- The text before the mark of a fill directive that ends the text. A newline may follow. -/
def fill? (content : List Char) : Option (List Char) :=
  Text.before? "[fill]".toList (Text.dropNewlineAtEnd content)

/-- The text that a fill directive pads with. -/
def fillText (text : List Char) : List Char :=
  if text = [] then ['<'] else text

/-- The value of a directive that is no fill. -/
def resolveDirective (known : KnownValues) (content : List Char) (d : Draws) : List Char × Draws :=
  match counted? content with
  | some (word, n) =>
    if word = "rn".toList then d.chars asciiDigits n
    else if word = "rc".toList ∨ word = "ru".toList ∨ word = "rl".toList then d.chars (alphabet word) n
    else if word = [] then (Reference.resolve known content, d)
    else
      let value := ((known.lookup (.ofList word)).getD .null).display
      (Text.repeated (if value = "" then word else value.toList) n, d)
  | none => (Reference.resolve known content, d)

/-- What a segment contributes: a text, or room for padding with a text. -/
inductive Piece
  | text (s : List Char)
  | room (fill : List Char)

/-- The contributions of segments. Without a wanted length there is no padding. -/
def pieces (known : KnownValues) (padded : Bool) : List Segment → Draws → List Piece × Draws
  | [], d => ([], d)
  | .static s :: rest, d =>
    let (more, d) := pieces known padded rest d
    (.text s :: more, d)
  | .directive content :: rest, d =>
    match fill? content with
    | some fill =>
      let (more, d) := pieces known padded rest d
      (if padded then .room (fillText fill) :: more else more, d)
    | none =>
      let (s, d) := resolveDirective known content d
      let (more, d) := pieces known padded rest d
      (.text s :: more, d)

def Piece.isRoom : Piece → Bool
  | .room _ => true
  | .text _ => false

/-- The texts joined, with so many characters of padding in the last room and none in the others. -/
def join (missing : Nat) : List Piece → List Char
  | [] => []
  | .text s :: rest => s ++ join missing rest
  | .room fill :: rest =>
    (if rest.any Piece.isRoom then [] else Text.cycled fill missing) ++ join missing rest

/-- The text cut to a length; a negative one counts from the end. -/
def cutTo (length : Int) (text : List Char) : List Char :=
  if length < 0 then text.take (text.length - (-length).toNat) else text.take length.toNat

/-- The value that a rule makes. -/
def generate (rule : List Char) (known : KnownValues) (maxLength : Option Int) (d : Draws) :
    List Char × Draws :=
  let (made, d) := pieces known maxLength.isSome (segments rule) d
  match maxLength with
  | none => (join 0 made, d)
  | some length => (cutTo length (join (length - (join 0 made).length).toNat made), d)

/-- The value padded on its right by a specification such as `(A[10])`: a text and a width. -/
def padRight (value spec : List Char) : List Char :=
  let content := Text.trim spec
  let content :=
    match Text.after? ['('] content with
    | some inner => (Text.before? [')'] inner).getD content
    | none => content
  match counted? content with
  | some (c :: fill, width) => value ++ Text.cycled (c :: fill) (width - value.length)
  | _ => value

end SvgForm.Rule
