import SvgForm.Proofs.Document.Write
import SvgForm.Proofs.Patch.Outcome
/-! # What patches leave alone

No patch changes the name of an element, and patches that spare the attributes by which elements are found
leave those as they were, at every element, in the tree or not.
-/

namespace SvgForm

/-- A patch changes none of the attributes by which elements are found. -/
def Patch.Spares (p : Patch) (holder : String) : Prop :=
  p.isText = true ∨ p.isReorder = true ∨
    ∀ name ∈ Document.lookupNames holder, Xml.qualify name ≠ Xml.qualify p.name

namespace Document

variable {d d' : Document} {holder : String} {h : Handle}

/-- Elements have the same names and are found by the same attributes. -/
structure SameLookups (holder : String) (d d' : Document) : Prop where
  wellFormed : d'.WellFormed
  get? : ∀ h, ∀ name ∈ lookupNames holder, d'.get? h name = d.get? h name
  tag : ∀ h, d'.tag h = d.tag h

namespace SameLookups

theorem refl (hd : d.WellFormed) : SameLookups holder d d :=
  ⟨hd, fun _ _ _ => rfl, fun _ => rfl⟩

theorem trans {d₁ d₂ d₃ : Document} (first : SameLookups holder d₁ d₂)
    (second : SameLookups holder d₂ d₃) : SameLookups holder d₁ d₃ where
  wellFormed := second.wellFormed
  get? := fun h name mem => (second.get? h name mem).trans (first.get? h name mem)
  tag := fun h => (second.tag h).trans (first.tag h)

theorem setText (hd : d.WellFormed) (hh : h ∈ d.handles) (text : String) :
    SameLookups holder d (d.setText h text) where
  wellFormed := hd.setText h text
  get? := by
    intro x name _
    rw [Document.get?, Document.get?, element_setText (hd.lt_size hh)]
    split <;> rfl
  tag := by
    intro x
    rw [Document.tag, Document.tag, element_setText (hd.lt_size hh)]
    split <;> rfl

theorem move? {side : Forest.Side} {r : Handle} (hd : d.WellFormed)
    (moved : d.move? side h r = some d') : SameLookups holder d d' := by
  have wellFormed := hd.move? moved
  obtain ⟨-, outline, -, rfl⟩ := move?_eq_some_iff.mp moved
  exact ⟨wellFormed, fun _ _ _ => rfl, fun _ => rfl⟩

theorem set (hd : d.WellFormed) (hh : h ∈ d.handles) {name : String}
    (spared : ∀ other ∈ lookupNames holder, Xml.qualify other ≠ Xml.qualify name) (value : String) :
    SameLookups holder d (d.set h name value) where
  wellFormed := hd.set h name value
  get? := by
    intro x other mem
    rw [get?_set (hd.lt_size hh), if_neg fun both => spared other mem both.2]
  tag := (SameContent.set d h name value).tag

theorem remove (hd : d.WellFormed) (hh : h ∈ d.handles) {name : String}
    (spared : ∀ other ∈ lookupNames holder, Xml.qualify other ≠ Xml.qualify name) :
    SameLookups holder d (d.remove h name) where
  wellFormed := hd.remove h name
  get? := by
    intro x other mem
    rw [get?_remove (hd.lt_size hh), if_neg fun both => spared other mem both.2]
  tag := (SameContent.remove d h name).tag

end SameLookups

theorem sameLookups_reorder {t : ReorderTarget} (hd : d.WellFormed) :
    SameLookups holder d (d.reorder holder h t).1 := by
  rcases d.reorder_cases holder h t with ⟨-, -, stays⟩ | ⟨d', _, _, moves, moved⟩
  · rw [stays]
    exact .refl hd
  · rw [moves]
    exact .move? hd moved

/-- A patch that spares the attributes by which elements are found. -/
theorem sameLookups_applyPatch {p : Patch} (hd : d.WellFormed) (spares : p.Spares holder) :
    SameLookups holder d (d.applyPatch holder p).1 := by
  rw [applyPatch]
  split
  case h_1 => exact .refl hd
  case h_2 h located =>
    have hh := mem_handles_of_find? located
    split
    case isTrue => exact .setText hd hh _
    case isFalse noText =>
      split
      case isTrue =>
        split
        case h_1 => exact sameLookups_reorder hd
        case h_2 => exact .refl hd
      case isFalse noReorder =>
        have spared := (spares.resolve_left noText).resolve_left noReorder
        split
        case h_1 => exact .refl hd
        case h_2 v _ =>
          cases v.isBlank
          · exact .set hd hh spared _
          · exact .remove hd hh spared

/-- The same of what may be a patch. -/
theorem sameLookups_applyData {raw : Datum} (hd : d.WellFormed)
    (spares : ∀ p, raw.toPatch = .ok p → p.Spares holder) : SameLookups holder d (d.applyData holder raw).1 := by
  rw [applyData]
  split
  case h_1 p read => exact sameLookups_applyPatch hd (spares p read)
  case h_2 => exact .refl hd

/-- Patches that spare the attributes by which elements are found; what is no patch is passed over. -/
theorem sameLookups_patchFrom {raws : List Datum} (hd : d.WellFormed)
    (spares : ∀ raw ∈ raws, ∀ p, raw.toPatch = .ok p → p.Spares holder) (n : Nat) :
    SameLookups holder d (patchFrom holder n raws d).1 := by
  induction raws generalizing d n with
  | nil => exact .refl hd
  | cons raw raws ih =>
      obtain ⟨first, rest⟩ := List.forall_mem_cons.mp spares
      have step := sameLookups_applyData hd first
      rw [fst_patchFrom_cons]
      exact step.trans (ih step.wellFormed rest (n + 1))

end Document

end SvgForm
