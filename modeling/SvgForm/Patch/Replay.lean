import SvgForm.Identity.Basic
import SvgForm.Patch.Basic
/-! # Replaying patches

Patches are applied in order. One that is invalid, has no target or cannot be carried out is skipped, and
the report says which were.
-/

namespace SvgForm

/-- How many patches were applied, of how many, and the places of those that were skipped. -/
structure PatchReport where
  applied : Nat
  total : Nat
  skipped : List Nat
  deriving DecidableEq

namespace PatchReport

def skippedCount (r : PatchReport) : Nat := r.skipped.length

/-- Whether no patch was skipped. -/
def complete (r : PatchReport) : Bool := r.applied = r.total

def summary (r : PatchReport) : String :=
  .ofList (Text.natDigits r.applied ++ '/' :: Text.natDigits r.total)

end PatchReport

namespace Document

/-- The attributes by which an element is found, in the order in which they are tried. -/
def lookupNames (identityName : String) : List String :=
  [identityName, "id", "name", "data-name"]

/-- The element that a patch means by its target. -/
def locate? (d : Document) (identityName target : String) : Option Handle :=
  d.find? target (lookupNames identityName)

/-! ## One patch

What becomes of the document comes with whether the patch could be carried out.
-/

/-- Moves an element next to another. -/
def move (d : Document) (side : Forest.Side) (h reference : Handle) : Document × Bool :=
  match d.move? side h reference with
  | some moved => (moved, true)
  | none => (d, false)

/-- Moves an element next to the one that is named. -/
def moveBeside (d : Document) (identityName : String) (side : Forest.Side) (h : Handle)
    (target : Option String) : Document × Bool :=
  match target.bind (d.locate? identityName) with
  | some r => d.move side h r
  | none => (d, false)

/-- Moves an element where a target says. Going before an element comes first. -/
def reorder (d : Document) (identityName : String) (h : Handle) (t : ReorderTarget) : Document × Bool :=
  match d.moveBeside identityName .before h t.before with
  | (d, true) => (d, true)
  | (d, false) => d.moveBeside identityName .after h t.after

def applyPatch (d : Document) (identityName : String) (p : Patch) : Document × Bool :=
  match d.locate? identityName p.id with
  | none => (d, false)
  | some h =>
    if p.isText then (d.setText h p.value.display, true)
    else if p.isReorder then
      match p.value with
      | .target t => d.reorder identityName h t
      | .scalar _ => (d, false)
    else
      match p.value with
      | .target _ => (d, false)
      | .scalar v => (if v.isBlank then d.remove h p.name else d.set h p.name v.display, true)

/-- Applies what may be a patch. -/
def applyData (d : Document) (identityName : String) (raw : Datum) : Document × Bool :=
  match raw.toPatch with
  | .ok p => d.applyPatch identityName p
  | .error _ => (d, false)

/-! ## Rows of patches -/

/-- Applies patches in order, of which the first is number `n`, counts those that are applied and collects
the numbers of those that are skipped. -/
def patchFrom (identityName : String) : (n : Nat) → List Datum → Document → Document × Nat × List Nat
  | _, [], d => (d, 0, [])
  | n, raw :: rest, d =>
    match d.applyData identityName raw with
    | (d, true) =>
      let (d, applied, skipped) := patchFrom identityName (n + 1) rest d
      (d, applied + 1, skipped)
    | (d, false) =>
      let (d, applied, skipped) := patchFrom identityName (n + 1) rest d
      (d, applied, n :: skipped)

/-- Applies patches in order. -/
def patchAll (d : Document) (identityName : String) (raw : List Datum) : Document × PatchReport :=
  let (patched, applied, skipped) := patchFrom identityName 0 raw d
  (patched, { applied, total := raw.length, skipped })

/-- Gives a base document identities and applies patches to it. -/
def replay (d : Document) (identityName : String) (raw : List Datum) : Document × PatchReport :=
  (d.ensureIdentities identityName).patchAll identityName raw

end Document

end SvgForm
