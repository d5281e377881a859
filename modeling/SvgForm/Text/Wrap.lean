import SvgForm.Text.Blank
/-! # Wrapping text

A text is broken at its newlines, and each paragraph between them into lines of words, as many as fit: a
word goes on the line before it unless the line would be too wide. A word too wide for any line has one of
its own, and a paragraph without words is an empty line.
-/

namespace SvgForm.Text

variable {ε : Type}

/-- The lines of words after those of a line; `tooWide` tells which lines do not fit. -/
def fillLines (tooWide : List Char → Except ε Bool) (line : List Char) :
    List (List Char) → Except ε (List (List Char))
  | [] => pure [line]
  | word :: rest => do
    let longer := line ++ ' ' :: word
    if ← tooWide longer then
      pure (line :: (← fillLines tooWide word rest))
    else fillLines tooWide longer rest

/-- The lines of a paragraph. -/
def wrapParagraph (tooWide : List Char → Except ε Bool) (paragraph : List Char) :
    Except ε (List (List Char)) :=
  match words paragraph with
  | [] => pure [[]]
  | word :: rest => fillLines tooWide word rest

/-- The lines of paragraphs. -/
def wrapParagraphs (tooWide : List Char → Except ε Bool) :
    List (List Char) → Except ε (List (List Char))
  | [] => pure []
  | paragraph :: rest => do
    let lines ← wrapParagraph tooWide paragraph
    pure (lines ++ (← wrapParagraphs tooWide rest))

/-- The lines of a text no wider than `maxWidth`, as far as its words allow. An empty text, or one without
room, is broken at its newlines only. -/
def wrap (width : List Char → Except ε Float) (maxWidth : Float) (text : List Char) :
    Except ε (List (List Char)) :=
  if text = [] ∨ maxWidth ≤ 0 then pure (text.splitOn '\n')
  else wrapParagraphs (fun line => do pure (maxWidth < (← width line))) (text.splitOn '\n')

end SvgForm.Text
