import SvgForm.Proofs.Forest.Move
import SvgForm.Proofs.Patch.Written
/-! # Reorders

A reorder changes the order of siblings and nothing else. Made again where all that it looks up leads to the
same elements, it leaves the element where it is.
-/

namespace SvgForm.Document

variable {d d' once g : Document} {holder : String} {side : Forest.Side} {h r : Handle}
  {target : Option String} {p : Patch}

/-! ## The order of siblings -/

/-- Documents that differ at most in the order of siblings. -/
structure Rearranged (d d' : Document) : Prop where
  elements : d'.elements = d.elements
  detached : d'.detached = d.detached
  handles : d'.handles.Perm d.handles
  below : ∀ x y, d'.outline.Below x y ↔ d.outline.Below x y
  siblings : ∀ x y, d'.outline.Siblings x y ↔ d.outline.Siblings x y

theorem Rearranged.refl (d : Document) : Rearranged d d :=
  ⟨rfl, rfl, .refl _, fun _ _ => .rfl, fun _ _ => .rfl⟩

theorem rearranged_move? (moved : d.move? side h r = some d') : Rearranged d d' := by
  obtain ⟨-, outline, found, rfl⟩ := move?_eq_some_iff.mp moved
  exact ⟨rfl, rfl, Forest.perm_move? found, fun _ _ => Forest.below_move? found,
    fun _ _ => Forest.siblings_move? found⟩

theorem rearranged_applyPatch (mover : p.isReorder = true) : Rearranged d (d.applyPatch holder p).1 := by
  rcases applyPatch_cases_of_isReorder mover with stays | ⟨_, _, _, moved⟩
  · rw [stays]
    exact .refl d
  · exact rearranged_move? moved

/-! ## The same reorder again -/

/-- What a patch looks up: its element, the one to go before, and if there is no going before it the one to go
after. -/
def lookups (d : Document) (holder : String) (p : Patch) : List String :=
  p.id :: match d.locate? holder p.id, p.isReorder, p.value with
    | some h, true, .target t =>
      t.before.toList ++ if (d.moveBeside holder .before h t.before).2 then [] else t.after.toList
    | _, _, _ => []

theorem moveBeside_again (hd : d.WellFormed) (moved : d.moveBeside holder side h target = (once, true))
    (outline : g.outline = once.outline) (found : ∀ t ∈ target, g.locate? holder t = d.locate? holder t) :
    g.moveBeside holder side h target = (g, true) := by
  obtain ⟨t, r, rfl, located, moved⟩ := moveBeside_eq_true_iff.mp moved
  obtain ⟨other, _, made, rfl⟩ := move?_eq_some_iff.mp moved
  have still : g.outline.move? side h r = some g.outline := by
    rw [outline]
    exact Forest.move?_move? hd.handles_nodup other made
  exact moveBeside_eq_true_iff.mpr
    ⟨t, r, rfl, (found t rfl).trans located, move?_eq_some_iff.mpr ⟨other, g.outline, still, rfl⟩⟩

theorem Stuck.again (stuck : d.Stuck holder h target)
    (siblings : ∀ x y, g.outline.Siblings x y ↔ d.outline.Siblings x y)
    (found : ∀ t ∈ target, g.locate? holder t = d.locate? holder t) : g.Stuck holder h target := by
  intro t named r located
  rw [found t named] at located
  rw [siblings]
  exact stuck t named r located

/-- A reorder made before leaves things as they are. -/
theorem applyPatch_again (hd : d.WellFormed) (mover : p.isReorder = true)
    (outline : g.outline = (d.applyPatch holder p).1.outline)
    (found : ∀ t ∈ d.lookups holder p, g.locate? holder t = d.locate? holder t) :
    (g.applyPatch holder p).1 = g := by
  have element : g.locate? holder p.id = d.locate? holder p.id := found p.id List.mem_cons_self
  have siblings : ∀ x y, g.outline.Siblings x y ↔ d.outline.Siblings x y := by
    rw [outline]
    exact (rearranged_applyPatch mover).siblings
  cases located : d.locate? holder p.id with
  | none => rw [applyPatch_of_missing (element.trans located)]
  | some h =>
      cases value : p.value with
      | scalar v => rw [applyPatch_of_scalar mover value]
      | target t =>
          rw [applyPatch_of_target mover value located, reorder] at outline
          rw [applyPatch_of_target mover value (element.trans located), reorder]
          simp only [lookups, located, mover, value] at found
          have before : ∀ s ∈ t.before, g.locate? holder s = d.locate? holder s := fun s hs =>
            found s (List.mem_cons_of_mem _ (List.mem_append_left _ (Option.mem_toList.mpr hs)))
          rcases d.moveBeside_cases holder .before h t.before with ⟨stuck, stays⟩ | ⟨d₁, _, moves, -⟩
          · have after : ∀ s ∈ t.after, g.locate? holder s = d.locate? holder s := fun s hs =>
              found s (List.mem_cons_of_mem _ (List.mem_append_right _ (by simpa [stays] using hs)))
            rw [moveBeside_of_stuck (stuck.again siblings before)]
            rw [stays] at outline
            rcases d.moveBeside_cases holder .after h t.after with ⟨stuck, -⟩ | ⟨d₂, _, moves, -⟩
            · exact congrArg Prod.fst (moveBeside_of_stuck (stuck.again siblings after))
            · have same : g.outline = d₂.outline := outline.trans (congrArg (·.1.outline) moves)
              exact congrArg Prod.fst (moveBeside_again hd moves same after)
          · rw [moves] at outline
            rw [moveBeside_again hd moves outline before]

end SvgForm.Document
