import SvgForm.Document.Text
/-! # Lists of elements

What an editor shows of a document's elements.
-/

namespace SvgForm

structure Listing where
  handle : Handle
  tag : String
  id : Option String
  internalId : Option String
  attributes : List (String × String)
  innerText : Option String

namespace Document

/-- The attributes under their short names. -/
def attributes (d : Document) (h : Handle) : Except Xml.NameError (List (String × String)) := do
  let named ← (d.element h).attributes.mapM fun (n, v) => do pure (← Xml.displayName n, v)
  pure (named.foldl (fun all (n, v) => Xml.setAttribute n v all) [])

/-- Lists the elements below the root that are no placeholders. -/
def list (d : Document) (identityAttribute : String) : Except Xml.NameError (List Listing) :=
  (d.handles.filter fun h => h ≠ root && !d.isPlaceholder h placeholderPhrase).mapM fun h => do
    pure {
      handle := h
      tag := d.tag h
      id := d.get? h "id"
      internalId := d.get? h identityAttribute
      attributes := ← d.attributes h
      innerText := if d.displayText h = "" then none else some (d.displayText h) }

end Document

end SvgForm
