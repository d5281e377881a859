import SvgForm.Text.Basic
/-! # Blank characters

Blank characters are the white space of every script, the four information separators and the next-line
control; a zero-width space is not blank. They separate words and are trimmed from the ends of a text.
-/

namespace SvgForm.Text

/-- The blank characters, as ranges of code points. -/
def blankRanges : List (Nat × Nat) :=
  [(0x9, 0xD), (0x1C, 0x20), (0x85, 0x85), (0xA0, 0xA0), (0x1680, 0x1680), (0x2000, 0x200A),
    (0x2028, 0x2029), (0x202F, 0x202F), (0x205F, 0x205F), (0x3000, 0x3000)]

def isBlank (c : Char) : Bool :=
  inRanges blankRanges c

/-- The text without the blanks at its start. -/
def trimStart (text : List Char) : List Char :=
  text.dropWhile isBlank

/-- The text without the blanks at its end. -/
def trimEnd (text : List Char) : List Char :=
  dropEndWhile isBlank text

/-- The text without the blanks at its ends. -/
def trim (text : List Char) : List Char :=
  trimEnd (trimStart text)

/-- The words of a text, as blanks separate them. -/
def words (text : List Char) : List (List Char) :=
  (text.splitOnP isBlank).filter (· ≠ [])

/-- Whether a text has no character that is not blank. -/
def allBlank (text : List Char) : Bool :=
  text.all isBlank

end SvgForm.Text

namespace SvgForm

/-- The string without the blanks at its ends. -/
def trimmed (s : String) : String :=
  Text.onChars Text.trim s

end SvgForm
