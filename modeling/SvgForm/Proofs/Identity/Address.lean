import Mathlib.Data.List.TakeWhile
import SvgForm.Proofs.Identity.Checkpoint
/-! # Identities as addresses

No two eligible elements carry the same identity once identities are written. Elements that are not eligible keep
what they carried before, and a search for an identity looks at them too: it leads to the element of the identity
unless one that is not eligible stands before it with the same value.
-/

namespace SvgForm.Document

open UniqueKeys

variable {d : Document} {holder identity : String} {h x : Handle}

/-- The elements that stand before one in the document. -/
def handlesBefore (d : Document) (h : Handle) : List Handle :=
  d.handles.takeWhile (· ≠ h)

/-- A search finds an element that it accepts just if it accepts none before. -/
theorem find?_eq_some_iff_takeWhile {α : Type} [DecidableEq α] {p : α → Bool} {a : α} {l : List α}
    (mem : a ∈ l) (accepted : p a = true) :
    l.find? p = some a ↔ ∀ y ∈ l.takeWhile (· ≠ a), p y = false := by
  induction l with
  | nil => cases mem
  | cons b l ih =>
      by_cases here : b = a
      · subst here
        simp [accepted]
      · have later : a ∈ l := List.mem_of_ne_of_mem (Ne.symm here) mem
        rw [List.takeWhile_cons_of_pos (by simpa using here), List.forall_mem_cons]
        cases accepts : p b with
        | true => simp [List.find?_cons_of_pos accepts, here]
        | false => rw [List.find?_cons_of_neg (by simp [accepts]), ih later, eq_self, true_and]

theorem mem_handles_of_mem_before (hx : x ∈ d.handlesBefore h) : x ∈ d.handles ∧ x ≠ h :=
  ⟨(List.takeWhile_prefix _).subset hx, by simpa using List.mem_takeWhile_imp hx⟩

/-- Besides an eligible element its identity is carried by those that are not eligible and carried it before. -/
theorem get?_ensureIdentities_eq_iff (hd : d.WellFormed) (hh : h ∈ d.eligible) (other : x ≠ h) :
    (d.ensureIdentities holder).get? x holder = some (d.identityOf holder h) ↔
      x ∉ d.eligible ∧ d.get? x holder = some (d.identityOf holder h) := by
  rw [get?_ensureIdentities hd]
  by_cases hx : x ∈ d.eligible
  · have differs : d.identityOf holder x ≠ d.identityOf holder h := fun same =>
      other ((hd.assigns_identityOf holder).inj hx hh same)
    simp [hx, differs]
  · simp [hx]

/-- Once identities are written, the identity of an element leads to it just if no element before it that is not
eligible carried the same value already. -/
theorem locate?_identity_iff (hd : d.Reachable) (mem : (h, identity) ∈ d.identities holder) :
    (d.ensureIdentities holder).locate? holder identity = some h ↔
      ∀ x ∈ d.handlesBefore h, x ∉ d.eligible → d.get? x holder ≠ some identity := by
  have hwf := hd.wellFormed
  obtain ⟨hh, rfl⟩ := hwf.mem_identities_iff.mp mem
  have attached : h ∈ (d.ensureIdentities holder).handles := by
    rw [(sameContent_ensureIdentities d holder).handles]
    exact eligible_subset hh
  have carries : (d.ensureIdentities holder).get? h holder = some (d.identityOf holder h) :=
    get?_holder_ensureIdentities hwf hh
  rw [locate?_eq (identityOf_ne_empty hwf hh) ⟨h, attached, carries⟩,
    find?_eq_some_iff_takeWhile attached (by simpa using carries),
    (sameContent_ensureIdentities d holder).handles]
  refine forall_congr' fun x => forall_congr' fun hx => ?_
  rw [decide_eq_false_iff_not, get?_ensureIdentities_eq_iff hwf hh (mem_handles_of_mem_before hx).2, not_and]

/-- A text without an id before a placeholder that was given an identity earlier. -/
def unnamedFirst : Document :=
  ofTree (.node { name := "svg" } (.ofRoots [{ name := "text", text := "Hello" },
    placeholder [(identityAttribute, "el-text")]]) .nil)

theorem unnamedFirst_located : unnamedFirst.Reachable ∧
    (1, "el-text") ∈ unnamedFirst.identities identityAttribute ∧
    (unnamedFirst.ensureIdentities identityAttribute).get? 2 identityAttribute = some "el-text" ∧
    (unnamedFirst.ensureIdentities identityAttribute).locate? identityAttribute "el-text" = some 1 :=
  have reachable : unnamedFirst.Reachable := .tree _ (by decide)
  have mem : (1, "el-text") ∈ unnamedFirst.identities identityAttribute := by decide +kernel
  have undisturbed : ∀ x ∈ unnamedFirst.handlesBefore 1, x ∉ unnamedFirst.eligible →
      unnamedFirst.get? x identityAttribute ≠ some "el-text" := by decide +kernel
  ⟨reachable, mem, by decide +kernel, (locate?_identity_iff reachable mem).mpr undisturbed⟩

/-- The same elements with the placeholder first. -/
def unnamedLast : Document :=
  ofTree (.node { name := "svg" } (.ofRoots [placeholder [(identityAttribute, "el-text")],
    { name := "text", text := "Hello" }]) .nil)

/-- The identity of a text leads to a placeholder before it that carries the same from earlier. -/
theorem unnamedLast_misled : ¬ ∀ d : Document, d.Reachable → ∀ holder h identity,
    (h, identity) ∈ d.identities holder → (d.ensureIdentities holder).locate? holder identity = some h := by
  intro claim
  have misled : (unnamedLast.ensureIdentities identityAttribute).locate? identityAttribute "el-text" = some 1 := by
    decide +kernel
  have found := claim unnamedLast (.tree _ (by decide)) identityAttribute 2 "el-text" (by decide +kernel)
  exact absurd (Option.some.inj (misled.symm.trans found)) (by decide)

end SvgForm.Document
