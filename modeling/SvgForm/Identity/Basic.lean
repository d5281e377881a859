import SvgForm.Document.Markup
import SvgForm.Identity.Keys
/-! # Identities

Every eligible element has an identity, so that an edit recorded for it finds it again. An element's base
key is its id, or an identity it was given before, or its tag; identities are unique keys for the base keys
in document order.
-/

namespace SvgForm

/-- The attribute that holds identities where no other is given. -/
def identityAttribute : String := "data-internal-id"

/-- The given attribute for identities, unless its name is empty. -/
def identityAttributeOr (given : Option String) : String :=
  (given.filter (· ≠ "")).getD identityAttribute

namespace Document

/-- Whether an element can have an identity: a content element below the root that is no placeholder. -/
def isEligible (d : Document) (h : Handle) : Bool :=
  h ≠ root && d.isContent h && !d.isPlaceholder h placeholderPhrase

/-- What an element's identity is made from. -/
def baseKey (d : Document) (holder : String) (h : Handle) : String :=
  let ofTag := "el-" ++ lowered (d.tag h)
  ((d.get? h "id").filter (· ≠ "")).getD (((d.get? h holder).filter (· ≠ "")).getD ofTag)

/-- The eligible elements in document order. -/
def eligible (d : Document) : List Handle :=
  d.handles.filter d.isEligible

/-- The identities of the eligible elements. -/
def identities (d : Document) (holder : String) : List (Handle × String) :=
  let keys := d.eligible.map (d.baseKey holder)
  d.eligible.zip (UniqueKeys.claimAll { reserved := keys } keys).1

/-- Writes the identities into an attribute of their elements. -/
def ensureIdentities (d : Document) (holder : String) : Document :=
  (d.identities holder).foldl (fun d (h, identity) => d.set h holder identity) d

end Document

/-- The markup with identities written into it. -/
def identifyMarkup (d : Document) : Except Xml.NameError String :=
  (d.ensureIdentities identityAttribute).serialize

end SvgForm
