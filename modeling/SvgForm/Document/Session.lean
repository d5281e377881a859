import SvgForm.Document.Edit
import SvgForm.Document.Listing
import SvgForm.Document.Markup
/-! # Sessions

A session makes calls to one document. It looks up the parents of all elements at once, as soon as one of them
is needed, and remembers them until the structure of the document changes.
-/

namespace SvgForm

/-- What a document is asked about things that do not hang on parents. -/
inductive Query
  | root
  | handles
  | count
  | serialize
  | list (identityAttribute : String)
  | find (value : String) (names : List String)
  | tag (h : Handle)
  | children (h : Handle)
  | text (h : Handle)
  | lines (h : Handle)
  | displayText (h : Handle)
  | isPlaceholder (h : Handle) (phrase : String)
  | get (h : Handle) (name : String)
  | has (h : Handle) (name : String)
  | attributes (h : Handle)

inductive Call
  | edit (e : Edit)
  | query (q : Query)
  | parent (h : Handle)
  | ancestors (h : Handle)
  | isContent (h : Handle)

inductive Answer
  | edited (a : Edit.Answer)
  | handle (h : Option Handle)
  | handles (l : List Handle)
  | count (n : Nat)
  | truth (b : Bool)
  | text (s : Option String)
  | texts (l : List String)
  | attributes (l : List (String × String))
  | listing (l : List Listing)

/-- Why a call has no answer. -/
inductive CallError
  | handle (e : UnknownHandle)
  | name (e : Xml.NameError)
  /-- An element does not stand in the row in which it was looked up. -/
  | astray

/-- The wording of an error. -/
def CallError.message : CallError → String
  | .handle e => e.message
  | .name e => e.message
  | .astray => "list.remove(x): x not in list"

/-- Whether a call changes the document. -/
def Call.isEdit : Call → Bool
  | .edit _ => true
  | _ => false

/-- Whether an edit changes more than attributes. -/
def Edit.reshapes : Edit → Bool
  | .set .. | .remove .. => false
  | .setText .. | .appendChild .. | .move .. => true

/-- The handles that a call names. -/
def Edit.named : Edit → List Handle
  | .set h .. | .remove h .. | .setText h .. | .appendChild h .. => [h]
  | .move _ h reference => [h, reference]

def Query.named : Query → List Handle
  | .root | .handles | .count | .serialize | .list _ | .find .. => []
  | .tag h | .children h | .text h | .lines h | .displayText h | .isPlaceholder h _ | .get h _ | .has h _
  | .attributes h => [h]

def Call.named : Call → List Handle
  | .edit e => e.named
  | .query q => q.named
  | .parent h | .ancestors h | .isContent h => [h]

/-! ## Questions -/

namespace Document

/-- Answers a question about the element that is named. -/
def about (d : Document) (n : Handle) (answer : Handle → Answer) : Except CallError Answer :=
  match d.handle? n with
  | .ok h => .ok (answer h)
  | .error e => .error (.handle e)

def answer (d : Document) : Query → Except CallError Answer
  | .root => .ok (.handle (some root))
  | .handles => .ok (.handles d.handles)
  | .count => .ok (.count d.handles.length)
  | .serialize =>
    match d.serialize with
    | .ok markup => .ok (.text (some markup))
    | .error e => .error (.name e)
  | .list identityAttribute =>
    match d.list identityAttribute with
    | .ok all => .ok (.listing all)
    | .error e => .error (.name e)
  | .find value names => .ok (.handle (d.find? value names))
  | .tag n => d.about n fun h => .text (some (d.tag h))
  | .children n => d.about n fun h => .handles (d.children h)
  | .text n => d.about n fun h => .text (some (d.text h))
  | .lines n => d.about n fun h => .texts (d.lines h)
  | .displayText n => d.about n fun h => .text (some (d.displayText h))
  | .isPlaceholder n phrase =>
    if phrase = "" then .ok (.truth false) else d.about n fun h => .truth (d.isPlaceholder h phrase)
  | .get n name => d.about n fun h => .text (d.get? h name)
  | .has n name => d.about n fun h => .truth (d.has h name)
  | .attributes n =>
    match d.handle? n with
    | .error e => .error (.handle e)
    | .ok h =>
      match d.attributes h with
      | .ok all => .ok (.attributes all)
      | .error e => .error (.name e)

/-- The document with an element moved next to another in the row of children of `parent`; nothing if one of
them does not stand there. -/
def moveAmong? (d : Document) (side : Forest.Side) (parent h reference : Handle) : Option Document :=
  ((d.below parent).moveRoot? side h reference).map fun row =>
    { d with
      outline := d.outline.mapChildren parent fun _ => row
      detached := d.detached.mapChildren parent fun _ => row }

end Document

/-! ## Parents that are remembered -/

/-- Elements with their parents. -/
abbrev Parents := List (Handle × Handle)

/-- The elements met on the way up from one, in so many steps at most. -/
def Parents.climb (parents : Parents) : (steps : Nat) → Handle → List Handle
  | 0, _ => []
  | steps + 1, h =>
    match parents.lookup h with
    | some p => p :: climb parents steps p
    | none => []

structure Session where
  document : Document
  /-- The parents, if they were looked up since the structure changed last. -/
  parents : Option Parents := none

namespace Session

/-- The parents as they are remembered, or else as they are now. -/
def recalled (s : Session) : Parents :=
  s.parents.getD s.document.outline.parents

/-- Remembers the parents. -/
def remember (s : Session) : Session :=
  { s with parents := some s.recalled }

def parent? (s : Session) (h : Handle) : Option Handle :=
  s.recalled.lookup h

/-- The way up from an element. One that never comes back to an element has no more steps than there are
elements with a parent. -/
def ancestors (s : Session) (h : Handle) : List Handle :=
  s.recalled.climb s.recalled.length h

/-- Parents are looked up even for a handle that no element turns out to have. -/
def aboutParents (s : Session) (n : Handle) (answer : Handle → Answer) : Except CallError Answer × Session :=
  (s.document.about n answer, s.remember)

/-- An excluded element is no content wherever it is; otherwise no element around it may be excluded. -/
def isContent (s : Session) (n : Handle) : Except CallError Answer × Session :=
  match s.document.handle? n with
  | .error e => (.error (.handle e), s)
  | .ok h =>
    if s.document.tag h ∈ Document.nonContentTags then (.ok (.truth false), s)
    else
      (.ok (.truth ((s.ancestors h).all fun a => s.document.tag a ∉ Document.nonContentTags)), s.remember)

/-- Moves an element next to another, if the two have one parent. -/
def move (s : Session) (side : Forest.Side) (n reference : Handle) : Except CallError Answer × Session :=
  if n = reference then (.ok (.edited (.moved false)), s)
  else
    match s.document.handle? n with
    | .error e => (.error (.handle e), s.remember)
    | .ok h =>
      match s.parent? h with
      | none => (.ok (.edited (.moved false)), s.remember)
      | some p =>
        match s.document.handle? reference with
        | .error e => (.error (.handle e), s.remember)
        | .ok r =>
          if s.parent? r ≠ some p then (.ok (.edited (.moved false)), s.remember)
          else
            match s.document.moveAmong? side p h r with
            | some moved => (.ok (.edited (.moved true)), { document := moved })
            | none => (.error .astray, s.remember)

/-- Makes an edit that needs no parents. What changes the structure makes the session forget them. -/
def change (s : Session) (e : Edit) : Except CallError Answer × Session :=
  match e.apply s.document with
  | .error e => (.error (.handle e), s)
  | .ok (edited, a) =>
    (.ok (.edited a), { document := edited, parents := if e.reshapes then none else s.parents })

def edit (s : Session) : Edit → Except CallError Answer × Session
  | .move side n reference => s.move side n reference
  | e => s.change e

def call (s : Session) : Call → Except CallError Answer × Session
  | .edit e => s.edit e
  | .query q => (s.document.answer q, s)
  | .parent n => s.aboutParents n fun h => .handle (s.parent? h)
  | .ancestors n => s.aboutParents n fun h => .handles (s.ancestors h)
  | .isContent n => s.isContent n

/-- Makes calls in order. -/
def run (s : Session) : List Call → List (Except CallError Answer) × Session
  | [] => ([], s)
  | c :: rest =>
    let (answer, s) := s.call c
    let (answers, s) := s.run rest
    (answer :: answers, s)

/-- A session with a copy of the document. Nothing is remembered of the parents. -/
def copy (s : Session) : Session where
  document := s.document.copy

end Session

end SvgForm
