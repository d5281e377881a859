import Mathlib.Data.List.Forall2
import SvgForm.Proofs.Forest
/-! # Forests of one shape

Two forests are alike when they have the same shape and a relation holds between the labels that stand at the same
places.
-/

namespace SvgForm.Forest

variable {α β γ : Type} {R : α → β → Prop} {f : Forest α} {g : Forest β}

inductive Alike (R : α → β → Prop) : Forest α → Forest β → Prop
  | nil : Alike R .nil .nil
  | node {a : α} {b : β} {children siblings : Forest α} {children' siblings' : Forest β} (label : R a b)
      (below : Alike R children children') (after : Alike R siblings siblings') :
      Alike R (.node a children siblings) (.node b children' siblings')

theorem alike_node_iff {a : α} {children siblings : Forest α} : (node a children siblings).Alike R g ↔
    ∃ b children' siblings', R a b ∧ children.Alike R children' ∧ siblings.Alike R siblings' ∧
      g = .node b children' siblings' := by
  constructor
  · rintro ⟨⟩
    exact ⟨_, _, _, ‹_›, ‹_›, ‹_›, rfl⟩
  · rintro ⟨b, children', siblings', label, below, after, rfl⟩
    exact .node label below after

theorem alike_nil_iff : (nil : Forest α).Alike R g ↔ g = .nil := by
  constructor
  · rintro ⟨⟩
    rfl
  · rintro rfl
    exact .nil

theorem Alike.toList (alike : f.Alike R g) : List.Forall₂ R f.toList g.toList := by
  induction alike with
  | nil => exact .nil
  | node label _ _ ihc ihs => exact .cons label (List.rel_append ihc ihs)

theorem Alike.imp {S : α → β → Prop} (alike : f.Alike R g) (also : ∀ a b, R a b → S a b) : f.Alike S g := by
  induction alike with
  | nil => exact .nil
  | node label _ _ ihc ihs => exact .node (also _ _ label) ihc ihs

/-- Numbering the labels forgets all but the shape. -/
theorem Alike.number (alike : f.Alike R g) (n : Nat) : g.number n = f.number n := by
  induction alike generalizing n with
  | nil => rfl
  | node _ below _ ihc ihs => rw [Forest.number, Forest.number, ihc, ihs, below.toList.length_eq]

theorem alike_map_left {h : γ → α} {f : Forest γ} : (f.map h).Alike R g ↔ f.Alike (fun c b => R (h c) b) g := by
  induction f generalizing g with
  | nil => rw [Forest.map, alike_nil_iff, alike_nil_iff]
  | node c children siblings ihc ihs => simp only [Forest.map, alike_node_iff, ihc, ihs]

/-- A forest has one like it if every label has one it is related to. -/
theorem exists_alike_iff : (∃ g, f.Alike R g) ↔ ∀ a ∈ f.toList, ∃ b, R a b := by
  induction f with
  | nil => exact ⟨fun _ _ mem => absurd mem List.not_mem_nil, fun _ => ⟨.nil, .nil⟩⟩
  | node a children siblings ihc ihs =>
      rw [Forest.toList, List.forall_mem_cons, List.forall_mem_append, ← ihc, ← ihs]
      constructor
      · rintro ⟨_, alike⟩
        obtain ⟨b, below, after, label, children, siblings, rfl⟩ := alike_node_iff.mp alike
        exact ⟨⟨b, label⟩, ⟨below, children⟩, ⟨after, siblings⟩⟩
      · rintro ⟨⟨b, label⟩, ⟨below, children⟩, ⟨after, siblings⟩⟩
        exact ⟨_, .node label children siblings⟩

end SvgForm.Forest
