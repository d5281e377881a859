import Mathlib.Data.List.Induction
import SvgForm.Proofs.Document.Content
/-! # Changes of one element

The text of an element and the values of its attributes are set, and attributes are removed. What comes of
many changes is decided, for the text and for each attribute, by the last change that concerns it.
-/

namespace SvgForm.Xml

/-- A change of an element. Names of attributes are expanded. -/
inductive Change
  | text (s : String)
  | set (name value : String)
  | remove (name : String)
  deriving DecidableEq

namespace Change

/-- What becomes of attributes. -/
def attributes : Change → List (String × String) → List (String × String)
  | text _, l => l
  | set name value, l => setAttribute name value l
  | remove name, l => l.filter (·.1 ≠ name)

/-- The text that the change sets. -/
def text? : Change → Option String
  | text s => some s
  | set _ _ | remove _ => none

/-- What the change makes of the value of an attribute, if it concerns that attribute. -/
def attribute? (name : String) : Change → Option (Option String)
  | text _ => none
  | set other value => if other = name then some (some value) else none
  | remove other => if other = name then some none else none

def apply (c : Change) (e : Element) : Element :=
  { e with text := c.text?.getD e.text, attributes := c.attributes e.attributes }

def applyAll (cs : List Change) (e : Element) : Element :=
  cs.foldl (fun e c => c.apply e) e

def attributesAfter (cs : List Change) (l : List (String × String)) : List (String × String) :=
  cs.foldl (fun l c => c.attributes l) l

/-! ## The last change counts -/

theorem getLast?_filterMap_concat {α β : Type} (f : α → Option β) (l : List α) (a : α) (b : β) :
    ((l ++ [a]).filterMap f).getLast?.getD b = (f a).getD ((l.filterMap f).getLast?.getD b) := by
  cases made : f a <;> simp [List.filterMap_append, made]

theorem applyAll_concat (cs : List Change) (c : Change) (e : Element) :
    applyAll (cs ++ [c]) e = c.apply (applyAll cs e) := by
  simp [applyAll]

theorem attributesAfter_append_changes (cs ds : List Change) (l : List (String × String)) :
    attributesAfter (cs ++ ds) l = attributesAfter ds (attributesAfter cs l) :=
  List.foldl_append

theorem attributesAfter_concat (cs : List Change) (c : Change) (l : List (String × String)) :
    attributesAfter (cs ++ [c]) l = c.attributes (attributesAfter cs l) := by
  simp [attributesAfter]

theorem applyAll_eq (cs : List Change) (e : Element) : applyAll cs e =
    { e with
      text := (cs.filterMap text?).getLast?.getD e.text
      attributes := attributesAfter cs e.attributes } := by
  induction cs using List.reverseRecOn with
  | nil => rfl
  | append_singleton cs c ih =>
      rw [applyAll_concat, ih, attributesAfter_concat, getLast?_filterMap_concat, apply]

/-- Made again, changes leave at most the order of attributes different. -/
theorem bare_applyAll_twice (cs : List Change) (e : Element) :
    (applyAll cs (applyAll cs e)).bare = (applyAll cs e).bare := by
  rw [applyAll_eq cs (applyAll cs e), applyAll_eq cs e]
  cases (cs.filterMap text?).getLast? <;> rfl

theorem lookup_attributes (c : Change) (l : List (String × String)) (name : String) :
    (c.attributes l).lookup name = (c.attribute? name).getD (l.lookup name) := by
  cases c with
  | text s => rfl
  | set other value =>
      rw [attributes, attribute?, lookup_setAttribute]
      by_cases same : other = name
      · simp [same]
      · simp [same, Ne.symm same]
  | remove other =>
      rw [attributes, attribute?, lookup_filter_ne]
      by_cases same : other = name
      · simp [same]
      · simp [same, Ne.symm same]

theorem lookup_attributesAfter (cs : List Change) (l : List (String × String)) (name : String) :
    (attributesAfter cs l).lookup name =
      (cs.filterMap (attribute? name)).getLast?.getD (l.lookup name) := by
  induction cs using List.reverseRecOn with
  | nil => rfl
  | append_singleton cs c ih =>
      rw [attributesAfter_concat, lookup_attributes, ih, getLast?_filterMap_concat]

theorem attribute?_applyAll_twice (cs : List Change) (e : Element) (name : String) :
    (applyAll cs (applyAll cs e)).attribute? name = (applyAll cs e).attribute? name := by
  rw [applyAll_eq cs (applyAll cs e), applyAll_eq cs e, Element.attribute?, Element.attribute?,
    lookup_attributesAfter, lookup_attributesAfter]
  cases (cs.filterMap (attribute? name)).getLast? <;> rfl

end Change

end SvgForm.Xml
