/-! # The order of doubles

Doubles that are numbers are ordered like numbers, and what is no number is neither above nor below anything. So
of two doubles the one never lies above the other and below it.
-/

namespace SvgForm.Decimal

open Float.Model

theorem compare_sign_swap (s t : UnpackedFloat.Sign) : (compare s t).swap = compare t s := by
  cases s <;> cases t <;> rfl

theorem compare_unpacked_swap (x y : UnpackedFloat) : (x.compare y).map Ordering.swap = y.compare x := by
  cases x with
  | notANumber => cases y <;> rfl
  | infinity s =>
      cases y with
      | infinity t => exact congrArg some (compare_sign_swap s t)
      | finite t => cases s <;> cases t <;> rfl
      | _ => cases s <;> rfl
  | zero s =>
      cases y with
      | infinity t => cases t <;> rfl
      | finite t => cases t <;> rfl
      | _ => rfl
  | finite s m e =>
      cases y with
      | infinity t => cases s <;> cases t <;> rfl
      | finite t n f =>
          -- only two finite numbers of one sign are told apart by their digits
          have digits : ((compare e f).then (compare m n)).swap = (compare f e).then (compare n m) := by
            rw [Ordering.swap_then, ← Std.OrientedOrd.eq_swap, ← Std.OrientedOrd.eq_swap]
          cases s with
          | positive =>
              cases t with
              | positive => exact congrArg some digits
              | negative => rfl
          | negative =>
              cases t with
              | positive => rfl
              | negative => exact congrArg (fun order => some order.swap) digits
      | _ => cases s <;> rfl

theorem not_le_of_lt {x y : Float} (below : x < y) : ¬ y ≤ x := by
  have less : x.toModel.unpack.compare y.toModel.unpack = some .lt :=
    beq_iff_eq.mp (of_decide_eq_true below)
  intro above
  have most : (y.toModel.unpack.compare x.toModel.unpack).any (·.isLE) = true := of_decide_eq_true above
  rw [← compare_unpacked_swap, less] at most
  cases most

end SvgForm.Decimal
