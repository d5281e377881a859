import SvgForm.Document.Basic
/-! # Edits

The changes that can be made to a document, each by a handle, and what each one answers.
-/

namespace SvgForm

inductive Edit
  | set (h : Handle) (name value : String)
  | remove (h : Handle) (name : String)
  | setText (h : Handle) (text : String)
  | appendChild (h : Handle) (tag : String) (attributes : List (String × String)) (text : String)
  | move (side : Forest.Side) (h reference : Handle)

inductive Edit.Answer
  | done
  | created (h : Handle)
  | moved (happened : Bool)

/-- Makes an edit. A move looks at the element first, and at the reference only if the element hangs
together with the root and is not it. -/
def Edit.apply (d : Document) : Edit → Except UnknownHandle (Document × Answer)
  | .set h name value => do
    pure (d.set (← d.handle? h) name value, .done)
  | .remove h name => do
    pure (d.remove (← d.handle? h) name, .done)
  | .setText h text => do
    pure (d.setText (← d.handle? h) text, .done)
  | .appendChild h tag attributes text => do
    pure (d.appendChild (← d.handle? h) tag attributes text, .created d.elements.size)
  | .move side h reference => do
    if h = reference then return (d, .moved false)
    let h ← d.handle? h
    if (d.parent? h).isNone then return (d, .moved false)
    match d.move? side h (← d.handle? reference) with
    | some moved => pure (moved, .moved true)
    | none => pure (d, .moved false)

end SvgForm
