import SvgForm.Document.Text
import SvgForm.Xml.Read
import SvgForm.Xml.Write
/-! # Documents as markup -/

namespace SvgForm.Document

/-- Why a text is no document. -/
inductive ReadError
  | empty
  | notWellFormed
  | wrongRoot (tag : String)

/-- The wording of an error. -/
def ReadError.message : ReadError → String
  | .empty => "document is empty"
  | .notWellFormed => "document is not well-formed XML (...)"
  | .wrongRoot tag => "root element must be <svg>, got <" ++ tag ++ ">"

/-- Reads a document. Its root is called `svg`, in any namespace. -/
def parse (markup : String) : Except ReadError Document :=
  if Text.allBlank markup.toList then .error .empty
  else
    match Xml.root? markup.toList with
    | none => .error .notWellFormed
    | some tree =>
      let d := ofTree tree
      if d.tag root = "svg" then .ok d else .error (.wrongRoot (d.tag root))

/-- Writes the tree of the root. -/
def serialize (d : Document) : Except Xml.NameError String :=
  Xml.write d.toTree

end SvgForm.Document
