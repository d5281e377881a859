import SvgForm.Patch.Replay
import SvgForm.Proofs.Document.Tree
/-! # What becomes of a patch

A patch that cannot be carried out leaves the document as it was. That is so if its target leads to no element,
if its value is none that its attribute takes, and if there is nothing beside which it can move the element.
-/

namespace SvgForm.Document

variable {d d' : Document} {holder : String} {side : Forest.Side} {h r : Handle} {target : Option String}
  {t : ReorderTarget} {p : Patch} {raw : Datum} {raws : List Datum}

/-! ## Moves -/

theorem move_eq_true_iff : d.move side h r = (d', true) ↔ d.move? side h r = some d' := by
  rw [move]
  cases d.move? side h r <;> simp

theorem move_failed (failed : (d.move side h r).2 = false) : d.move side h r = (d, false) := by
  rw [move] at failed ⊢
  cases moved : d.move? side h r with
  | none => rfl
  | some d' => simp [moved] at failed

theorem moveBeside_eq_true_iff : d.moveBeside holder side h target = (d', true) ↔
    ∃ s r, target = some s ∧ d.locate? holder s = some r ∧ d.move? side h r = some d' := by
  rw [moveBeside]
  cases target with
  | none => simp
  | some s => cases located : d.locate? holder s <;> simp [located, move_eq_true_iff]

theorem moveBeside_failed (failed : (d.moveBeside holder side h target).2 = false) :
    d.moveBeside holder side h target = (d, false) := by
  rw [moveBeside] at failed ⊢
  cases located : target.bind (d.locate? holder) with
  | none => rfl
  | some r => exact move_failed (by simpa only [located] using failed)

/-- There is none among the named elements, or no sibling of the element, beside which it could go. -/
def Stuck (d : Document) (holder : String) (h : Handle) (target : Option String) : Prop :=
  ∀ s ∈ target, ∀ r ∈ d.locate? holder s, h = r ∨ ¬ d.outline.Siblings h r

theorem moveBeside_eq_false_iff : (d.moveBeside holder side h target).2 = false ↔ d.Stuck holder h target := by
  have apart (r : Handle) : (d.move side h r).2 = false ↔ h = r ∨ ¬ d.outline.Siblings h r := by
    have stays : (d.move side h r).2 = false ↔ d.move? side h r = none := by
      rw [move]
      cases d.move? side h r <;> simp
    rw [stays, ← Option.not_isSome_iff_eq_none, isSome_move?, not_and_or, not_not]
  rw [moveBeside, Stuck]
  cases target with
  | none => simp
  | some s => cases located : d.locate? holder s <;> simp [located, apart]

theorem moveBeside_of_stuck (stuck : d.Stuck holder h target) : d.moveBeside holder side h target = (d, false) :=
  moveBeside_failed (moveBeside_eq_false_iff.mpr stuck)

/-- An element is moved next to one of its siblings, or the document stays as it is. -/
theorem moveBeside_cases (d : Document) (holder : String) (side : Forest.Side) (h : Handle) (target : Option String) :
    d.Stuck holder h target ∧ d.moveBeside holder side h target = (d, false) ∨
      ∃ d' r, d.moveBeside holder side h target = (d', true) ∧ d.move? side h r = some d' := by
  rcases outcome : d.moveBeside holder side h target with ⟨d', _ | _⟩
  · have stuck := moveBeside_eq_false_iff.mp (congrArg Prod.snd outcome)
    exact .inl ⟨stuck, outcome.symm.trans (moveBeside_of_stuck stuck)⟩
  · obtain ⟨_, r, _, _, moved⟩ := moveBeside_eq_true_iff.mp outcome
    exact .inr ⟨d', r, rfl, moved⟩

theorem reorder_of_stuck (before : d.Stuck holder h t.before) (after : d.Stuck holder h t.after) :
    d.reorder holder h t = (d, false) := by
  rw [reorder, moveBeside_of_stuck before]
  exact moveBeside_of_stuck after

theorem reorder_cases (d : Document) (holder : String) (h : Handle) (t : ReorderTarget) :
    d.Stuck holder h t.before ∧ d.Stuck holder h t.after ∧ d.reorder holder h t = (d, false) ∨
      ∃ d' side r, d.reorder holder h t = (d', true) ∧ d.move? side h r = some d' := by
  rcases d.moveBeside_cases holder .before h t.before with ⟨before, stays⟩ | ⟨d', r, moves, moved⟩
  · rcases d.moveBeside_cases holder .after h t.after with ⟨after, -⟩ | ⟨d', r, moves, moved⟩
    · exact .inl ⟨before, after, reorder_of_stuck before after⟩
    · refine .inr ⟨d', .after, r, ?_, moved⟩
      rw [reorder, stays]
      exact moves
  · refine .inr ⟨d', .before, r, ?_, moved⟩
    rw [reorder, moves]

/-! ## Patches -/

theorem not_isText_of_isReorder (mover : p.isReorder = true) : p.isText = false := by
  rw [Patch.isReorder, decide_eq_true_eq] at mover
  rw [Patch.isText, mover]
  decide

theorem applyPatch_of_missing (missing : d.locate? holder p.id = none) : d.applyPatch holder p = (d, false) := by
  rw [applyPatch, missing]

theorem applyPatch_of_target (mover : p.isReorder = true) (value : p.value = .target t)
    (located : d.locate? holder p.id = some h) : d.applyPatch holder p = d.reorder holder h t := by
  simp only [applyPatch, located, not_isText_of_isReorder mover, mover, value, Bool.false_eq_true, if_false,
    if_true]

theorem applyPatch_of_scalar {v : Value} (mover : p.isReorder = true) (value : p.value = .scalar v) :
    d.applyPatch holder p = (d, false) := by
  simp only [applyPatch, not_isText_of_isReorder mover, mover, value, Bool.false_eq_true, if_false, if_true]
  cases d.locate? holder p.id <;> rfl

/-- A reorder moves one element next to a sibling, or does nothing. -/
theorem applyPatch_cases_of_isReorder (mover : p.isReorder = true) :
    (d.applyPatch holder p).1 = d ∨ ∃ side h r, d.move? side h r = some (d.applyPatch holder p).1 := by
  cases located : d.locate? holder p.id with
  | none => exact .inl (by rw [applyPatch_of_missing located])
  | some h =>
      cases value : p.value with
      | scalar v => exact .inl (by rw [applyPatch_of_scalar mover value])
      | target t =>
          rw [applyPatch_of_target mover value located]
          rcases d.reorder_cases holder h t with ⟨-, -, stays⟩ | ⟨d', side, r, moves, moved⟩
          · exact .inl (by rw [stays])
          · exact .inr ⟨side, h, r, by rw [moves, moved]⟩

/-! ## The ways to fail -/

/-- The ways in which what may be a patch fails. -/
inductive Fails (d : Document) (holder : String) (raw : Datum) : Prop
  | invalid {e : PatchError} (refused : raw.toPatch = .error e) : Fails d holder raw
  | missing {p : Patch} (read : raw.toPatch = .ok p) (nowhere : d.locate? holder p.id = none) : Fails d holder raw
  /-- A reorder does not say where to go. -/
  | aimless {p : Patch} {v : Value} (read : raw.toPatch = .ok p) (mover : p.isReorder = true)
      (value : p.value = .scalar v) : Fails d holder raw
  /-- A reorder can go neither before an element nor after one. -/
  | stuck {p : Patch} {t : ReorderTarget} {h : Handle} (read : raw.toPatch = .ok p) (mover : p.isReorder = true)
      (value : p.value = .target t) (located : d.locate? holder p.id = some h) (before : d.Stuck holder h t.before)
      (after : d.Stuck holder h t.after) : Fails d holder raw
  /-- An attribute is to be where to go. -/
  | misplaced {p : Patch} {t : ReorderTarget} (read : raw.toPatch = .ok p) (noText : p.isText = false)
      (noMover : p.isReorder = false) (value : p.value = .target t) : Fails d holder raw

theorem applyData_of_patch (read : raw.toPatch = .ok p) : d.applyData holder raw = d.applyPatch holder p := by
  rw [applyData, read]

/-- Whichever way a patch fails, it leaves the document as it was. -/
theorem applyData_of_fails (fails : d.Fails holder raw) : d.applyData holder raw = (d, false) := by
  cases fails with
  | invalid refused => rw [applyData, refused]
  | missing read nowhere => rw [applyData_of_patch read, applyPatch_of_missing nowhere]
  | aimless read mover value => rw [applyData_of_patch read, applyPatch_of_scalar mover value]
  | stuck read mover value located before after =>
      rw [applyData_of_patch read, applyPatch_of_target mover value located, reorder_of_stuck before after]
  | @misplaced p t read noText noMover value =>
      rw [applyData_of_patch read]
      cases located : d.locate? holder p.id <;> simp [applyPatch, located, noText, noMover, value]

theorem fails_of_applyData (failed : (d.applyData holder raw).2 = false) : d.Fails holder raw := by
  cases read : raw.toPatch with
  | error e => exact .invalid read
  | ok p =>
      rw [applyData_of_patch read] at failed
      cases located : d.locate? holder p.id with
      | none => exact .missing read located
      | some h =>
          by_cases mover : p.isReorder = true
          · cases value : p.value with
            | scalar v => exact .aimless read mover value
            | target t =>
                rw [applyPatch_of_target mover value located] at failed
                rcases d.reorder_cases holder h t with ⟨before, after, -⟩ | ⟨d', _, _, moves, -⟩
                · exact .stuck read mover value located before after
                · simp [moves] at failed
          · rw [Bool.not_eq_true] at mover
            cases text : p.isText with
            | true => simp [applyPatch, located, text] at failed
            | false =>
                cases value : p.value with
                | target t => exact .misplaced read text mover value
                | scalar v => simp [applyPatch, located, text, mover, value] at failed

theorem applyData_eq_false_iff : (d.applyData holder raw).2 = false ↔ d.Fails holder raw :=
  ⟨fails_of_applyData, fun fails => by rw [applyData_of_fails fails]⟩

theorem applyData_cases (d : Document) (holder : String) (raw : Datum) :
    d.applyData holder raw = (d, false) ∨ ∃ d', d.applyData holder raw = (d', true) := by
  rcases outcome : d.applyData holder raw with ⟨d', _ | _⟩
  · have fails := fails_of_applyData (congrArg Prod.snd outcome)
    exact .inl (outcome.symm.trans (applyData_of_fails fails))
  · exact .inr ⟨d', rfl⟩

/-! ## The next of a row -/

theorem patchFrom_cons_of_applied (applied : d.applyData holder raw = (d', true)) (n : Nat) :
    patchFrom holder n (raw :: raws) d =
      ((patchFrom holder (n + 1) raws d').1, (patchFrom holder (n + 1) raws d').2.1 + 1,
        (patchFrom holder (n + 1) raws d').2.2) := by
  rw [patchFrom, applied]

theorem patchFrom_cons_of_failed (failed : d.applyData holder raw = (d, false)) (n : Nat) :
    patchFrom holder n (raw :: raws) d =
      ((patchFrom holder (n + 1) raws d).1, (patchFrom holder (n + 1) raws d).2.1,
        n :: (patchFrom holder (n + 1) raws d).2.2) := by
  rw [patchFrom, failed]

theorem fst_patchFrom_cons (n : Nat) : (patchFrom holder n (raw :: raws) d).1 =
    (patchFrom holder (n + 1) raws (d.applyData holder raw).1).1 := by
  rcases applyData_cases d holder raw with failed | ⟨d', applied⟩
  · rw [patchFrom_cons_of_failed failed, failed]
  · rw [patchFrom_cons_of_applied applied, applied]

end SvgForm.Document
