import SvgForm.Document.Basic
/-! # The text of elements

What a reader sees of an element: its text with that of everything below it, and the lines in which it
shows. An element whose text is a reserved phrase is a placeholder; some elements hold no content at all.
-/

namespace SvgForm.Document

/-- The texts of trees in document order, each with the text after it. -/
def textOf (d : Document) : Forest Handle → String
  | .nil => ""
  | .node h children siblings =>
    (d.element h).text ++ d.textOf children ++ (d.element h).tail ++ d.textOf siblings

/-- The text of an element and of everything below it. -/
def text (d : Document) (h : Handle) : String :=
  (d.element h).text ++ d.textOf (d.below h)

/-- The trimmed text as a line, unless it is blank. -/
def lineOf (s : String) : List String :=
  if trimmed s = "" then [] else [trimmed s]

/-- The text without no-break spaces. -/
def dropNoBreak (s : String) : String :=
  Text.onChars (·.filter (· ≠ '\u00a0')) s

/-- Whether an element is a line of text of its own. -/
def isSpan (d : Document) (h : Handle) : Bool :=
  d.tag h = "tspan"

/-- The lines of a row of children: one for each span, and one for each text after a child. -/
def spanLines (d : Document) : Forest Handle → List String
  | .nil => []
  | .node h children siblings =>
    let own := dropNoBreak ((d.element h).text ++ d.textOf children)
    (if d.isSpan h ∧ own ≠ "" then [own] else []) ++ lineOf (d.element h).tail ++ d.spanLines siblings

/-- The lines a reader sees. Without spans the whole text is one line. -/
def lines (d : Document) (h : Handle) : List String :=
  if (d.children h).any d.isSpan then lineOf (d.element h).text ++ d.spanLines (d.below h)
  else lineOf (d.text h)

/-- The lines, parted by newlines. -/
def displayText (d : Document) (h : Handle) : String :=
  "\n".intercalate (d.lines h)

/-- The phrase of placeholders where no other is given. -/
def placeholderPhrase : String := "test document"

/-- Whether the text is the phrase, whatever its case and the blanks around it. No text is the empty
phrase. -/
def isPlaceholder (d : Document) (h : Handle) (phrase : String) : Bool :=
  phrase ≠ "" && lowered (trimmed (d.text h)) = lowered (trimmed phrase)

/-- The tags of elements that, with everything below them, never carry content. -/
def nonContentTags : List String :=
  ["defs", "style", "linearGradient", "radialGradient", "pattern", "clipPath", "mask", "filter",
    "feGaussianBlur", "feOffset", "feFlood", "feComposite", "feMerge", "feMergeNode"]

/-- Whether neither the element nor one around it is excluded from content. -/
def isContent (d : Document) (h : Handle) : Bool :=
  (h :: d.ancestors h).all fun a => d.tag a ∉ nonContentTags

end SvgForm.Document
