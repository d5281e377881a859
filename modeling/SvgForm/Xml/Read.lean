import SvgForm.Xml.Doctype
import SvgForm.Xml.Namespace
/-! # Reading markup

A document is an optional declaration of its version, an optional document type, and one root element;
comments, instructions and white space may stand around them.
-/

namespace SvgForm.Xml

/-- The text without the white space, comments and instructions at its start. -/
def skipMisc? (s : List Char) : Option (List Char) :=
  match s with
  | '<' :: '!' :: '-' :: '-' :: s =>
    match _h : afterComment? s with
    | some rest => skipMisc? rest
    | none => none
  | '<' :: '?' :: s =>
    match _h : instruction? s with
    | some rest => skipMisc? rest
    | none => none
  | c :: s => if isSpace c then skipMisc? s else some (c :: s)
  | [] => some []
termination_by s.length
decreasing_by
  · have := afterComment?_length _h
    simp only [List.length_cons]; omega
  · have := instruction?_length _h
    simp only [List.length_cons]; omega
  · simp

/-- The declaration of the version at the start of a text, if it has one, and what follows. -/
def prolog? (s : List Char) : Option (Declarations × List Char) :=
  let room := roomFor (byteCount s)
  match Text.after? "<?xml".toList s with
  | some rest =>
    if rest.head?.any isNameChar then some ({ room }, s)
    else (versionDecl.run rest).map fun (standalone, rest) => ({ standalone, room }, rest)
  | none => some ({ room }, s)

/-- The document type at the start of a text, if it has one, and what follows. -/
def doctype? (d : Declarations) (s : List Char) : Option (Declarations × List Char) :=
  match Text.after? "<!DOCTYPE".toList s with
  | some rest => (doctype d).run rest
  | none => some (d, s)

/-- The text without the mark that may tell its byte order. -/
def dropByteOrderMark (s : List Char) : List Char :=
  match s with
  | c :: rest => if c.toNat = 0xFEFF then rest else s
  | [] => []

/-- The tokens of the root element, which a start tag of its own begins, and what follows it. -/
def rootTokens? (s : List Char) : Option (List Token × List Char) :=
  (elementTokens? 0 s).filter fun (ts, _) => ts.head?.any Token.isStart

/-- The root element of a document, as a forest of this one tree. -/
def root? (s : List Char) : Option (Forest Element) := do
  let (d, s) ← prolog? (normalizeNewlines (dropByteOrderMark s))
  let (d, s) ← doctype? d (← skipMisc? s)
  let (ts, s) ← rootTokens? (← skipMisc? s)
  let d ← d.take? (ts.flatMap (·.entities))
  let content ← Content.ofTokens? (← d.content? ts)
  if (← skipMisc? s) ≠ [] then none
  match content.elements with
  | .node _ _ .nil => resolveAll? d .initial content.elements
  | _ => none

end SvgForm.Xml
