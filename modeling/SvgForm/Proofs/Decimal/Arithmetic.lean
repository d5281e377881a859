import Mathlib
import SvgForm.Decimal.Binary
/-! # Products and quotients of doubles

A product or quotient has no minus sign if what it is made of has none. A product is rounded to 53 bits, which adds
at most one part in `2 ^ 52` to it, or the least double above nought; and the double nearest to a whole number is at
most one part in `2 ^ 52` above it. So the whole part of a share of a number, of no more than a half, does not exceed
the number.
-/

namespace SvgForm.Decimal

open Float.Model Float.Model.UnpackedFloat

/-! ## Signs -/

/-- Without a minus sign; what is no number has no sign. -/
def Unsigned : UnpackedFloat → Prop
  | .notANumber => True
  | .infinity s | .zero s | .finite s _ _ _ => s = .positive

theorem unsigned_components (exponent : BitVec 11) (fraction : BitVec 52) :
    Unsigned (UnpackedFloat.unpack .binary64 (packComponents .binary64 .positive exponent fraction)) := by
  unfold UnpackedFloat.unpack
  simp only [unpackSign_packComponents, Sign.ofBitVec_toBitVec]
  split_ifs <;> trivial

theorem Unsigned.pack {u : UnpackedFloat} (hu : Unsigned u) : Unsigned (Float.Model.pack u).unpack := by
  change Unsigned (UnpackedFloat.unpack .binary64 (UnpackedFloat.pack .binary64 u))
  cases u with
  | notANumber => exact unsigned_components _ _
  | infinity s => cases hu; exact unsigned_components _ _
  | zero s => cases hu; exact unsigned_components _ _
  | finite s m e pos =>
      cases hu
      unfold UnpackedFloat.pack
      dsimp only
      split_ifs <;> exact unsigned_components _ _

theorem unsigned_roundWithAccuracy (m : Nat) (e : Int) (accuracy : Accuracy) :
    Unsigned (roundWithAccuracy .binary64 .positive m e accuracy) := by
  unfold roundWithAccuracy
  dsimp only
  split <;> rfl

theorem Unsigned.mul {u v : UnpackedFloat} (hu : Unsigned u) (hv : Unsigned v) :
    Unsigned (UnpackedFloat.mul .binary64 u v) := by
  have signs : Sign.positive * Sign.positive = .positive := rfl
  fun_cases UnpackedFloat.mul .binary64 u v with
  | case11 =>
      cases hu
      cases hv
      exact unsigned_roundWithAccuracy ..
  | _ => simp_all [Unsigned]

theorem Unsigned.div {u v : UnpackedFloat} (hu : Unsigned u) (hv : Unsigned v) :
    Unsigned (UnpackedFloat.div .binary64 u v) := by
  have signs : Sign.positive / Sign.positive = .positive := rfl
  fun_cases UnpackedFloat.div .binary64 u v with
  | case11 =>
      cases hu
      cases hv
      exact unsigned_roundWithAccuracy ..
  | _ => simp_all [Unsigned]

/-- A number without a minus sign is not below nought, and it is a number if it is below another. -/
theorem nonneg_of_unsigned {x y : Float} (hx : Unsigned x.toModel.unpack) (below : x < y) : 0 ≤ x := by
  have less : x.toModel.unpack.compare y.toModel.unpack = some .lt := beq_iff_eq.mp (of_decide_eq_true below)
  refine decide_eq_true (?_ : (UnpackedFloat.compare (.zero .positive) x.toModel.unpack).any (·.isLE) = true)
  generalize x.toModel.unpack = u at *
  cases u with
  | notANumber => cases less
  | infinity s => cases hx; rfl
  | zero s => rfl
  | finite s m e pos => cases hx; rfl

theorem le_of_lt {x y : Float} (below : x < y) : x ≤ y := by
  have less : x.toModel.unpack.compare y.toModel.unpack = some .lt := beq_iff_eq.mp (of_decide_eq_true below)
  refine decide_eq_true (?_ : (x.toModel.unpack.compare y.toModel.unpack).any (·.isLE) = true)
  rw [less]
  rfl

/-! ## Rounding -/

/-- The size of a finite number, its sign set aside. -/
def magnitude : UnpackedFloat → ℚ
  | .finite _ m e _ => m * 2 ^ e
  | _ => 0

theorem magnitude_nonneg (u : UnpackedFloat) : 0 ≤ magnitude u := by
  cases u with
  | finite => simp only [magnitude]; positivity
  | _ => exact le_refl 0

theorem mantissa_shiftRight (em : ExtendedMantissa) (n : Nat) : (em >>> n).mantissa = em.mantissa / 2 ^ n := by
  change (n.repeat ExtendedMantissa.shiftRightOne em).mantissa = _
  induction n with
  | zero => simp [Nat.repeat]
  | succ n ih => rw [Nat.repeat, ExtendedMantissa.shiftRightOne, ih, Nat.div_div_eq_div_mul, Nat.pow_succ]

theorem roundedMantissa_le (em : ExtendedMantissa) : em.roundedMantissa ≤ em.mantissa + 1 := by
  obtain ⟨m, roundBit, stickyBit⟩ := em
  cases roundBit <;> cases stickyBit <;>
    simp only [ExtendedMantissa.roundedMantissa, ExtendedMantissa.accuracy, Accuracy.roundToNearestEven] <;> omega

/-- Digits that are dropped make a number smaller. -/
theorem dropped_le (m n : Nat) (e : Int) : ((m / 2 ^ n : Nat) : ℚ) * 2 ^ (e + n) ≤ m * 2 ^ e := by
  have kept : ((m / 2 ^ n : Nat) : ℚ) * 2 ^ n ≤ m := by exact_mod_cast Nat.div_mul_le_self m (2 ^ n)
  calc ((m / 2 ^ n : Nat) : ℚ) * 2 ^ (e + n)
      = ((m / 2 ^ n : Nat) : ℚ) * 2 ^ n * 2 ^ e := by
        rw [zpow_add₀ (by norm_num), zpow_natCast]; ring
    _ ≤ m * 2 ^ e := mul_le_mul_of_nonneg_right kept (by positivity)

theorem shift_le (spec : Format) (m : Nat) (e : Int) :
    ((shiftToTargetExponent spec m e .exact).1.mantissa : ℚ) *
      2 ^ (shiftToTargetExponent spec m e .exact).2 ≤ m * 2 ^ e := by
  simp only [shiftToTargetExponent, shiftToExponent, mantissa_shiftRight]
  exact dropped_le m _ e

/-- Rounding adds at most one unit of the last place. -/
theorem magnitude_roundWithAccuracy_le (spec : Format) (s : Sign) (m : Nat) (e : Int) :
    magnitude (roundWithAccuracy spec s m e .exact) ≤
      m * 2 ^ e + 2 ^ spec.targetExponent (totalExponent m e) := by
  have unit : (0 : ℚ) < 2 ^ spec.targetExponent (totalExponent m e) := by positivity
  have first : ((shiftToTargetExponent spec m e .exact).1.roundedMantissa : ℚ) *
      2 ^ (shiftToTargetExponent spec m e .exact).2 ≤
      m * 2 ^ e + 2 ^ spec.targetExponent (totalExponent m e) := by
    by_cases fits : spec.targetExponent (totalExponent m e) ≤ e
    case pos =>
      -- nothing is dropped, so nothing is rounded
      have none : (spec.targetExponent (totalExponent m e) - e).toNat = 0 := by omega
      simp only [shiftToTargetExponent, shiftToExponent, none]
      change (m : ℚ) * 2 ^ (e + (0 : Nat)) ≤ _
      simpa using unit.le
    case neg =>
      have last : (shiftToTargetExponent spec m e .exact).2 = spec.targetExponent (totalExponent m e) := by
        simp only [shiftToTargetExponent, shiftToExponent]
        omega
      have up : ((shiftToTargetExponent spec m e .exact).1.roundedMantissa : ℚ) ≤
          (shiftToTargetExponent spec m e .exact).1.mantissa + 1 := by
        exact_mod_cast roundedMantissa_le _
      have kept := shift_le spec m e
      rw [last] at kept ⊢
      nlinarith only [mul_le_mul_of_nonneg_right up unit.le, kept]
  unfold roundWithAccuracy
  simp only []
  split
  case isTrue => exact le_trans (by simp only [magnitude]; positivity) first
  case isFalse => exact le_trans (shift_le spec _ _) first

theorem targetExponent_binary64 (m : Nat) (e : Int) :
    Format.binary64.targetExponent (totalExponent m e) = max (m.log2 + e - 52) (-1074) := by
  simp only [Format.targetExponent, totalExponent, Format.mantissaBits, Format.minExponent]
  norm_num
  omega

/-- Rounding a double adds at most one part in `2 ^ 52` to it, or the least double above nought. -/
theorem magnitude_round_le (s : Sign) {m : Nat} (pos : 0 < m) (e : Int) :
    magnitude (roundWithAccuracy .binary64 s m e .exact) ≤ m * 2 ^ e * (1 + 1 / 2 ^ 52) + 2 ^ (-1074 : Int) := by
  refine le_trans (magnitude_roundWithAccuracy_le .binary64 s m e) ?_
  have leading : (2 : ℚ) ^ m.log2 ≤ m := by exact_mod_cast Nat.log2_self_le pos.ne'
  have normal : (2 : ℚ) ^ (m.log2 + e - 52 : Int) ≤ m * 2 ^ e * (1 / 2 ^ 52) := by
    rw [zpow_sub₀ (by norm_num), zpow_add₀ (by norm_num), zpow_natCast]
    have := mul_le_mul_of_nonneg_right leading (by positivity : (0 : ℚ) ≤ 2 ^ e)
    simpa [div_eq_mul_inv] using this
  have least : (0 : ℚ) < 2 ^ (-1074 : Int) := by positivity
  have size : (0 : ℚ) ≤ m * 2 ^ e * (1 / 2 ^ 52) := by positivity
  rw [targetExponent_binary64]
  rcases max_choice ((m.log2 : Int) + e - 52) (-1074) with larger | larger
  · rw [larger]; linarith only [normal, least]
  · rw [larger]; linarith only [size]

/-! ## Whole parts -/

theorem toNat_packComponents (s : Sign) (exponent : BitVec 11) (fraction : BitVec 52) :
    (packComponents .binary64 s exponent fraction).toNat =
      s.toBitVec.toNat * 2 ^ 63 + exponent.toNat * 2 ^ 52 + fraction.toNat := by
  rw [packComponents, BitVec.toNat_append, BitVec.toNat_append, ← Nat.shiftLeft_add_eq_or_of_lt fraction.isLt,
    ← Nat.shiftLeft_add_eq_or_of_lt exponent.isLt]
  simp only [Nat.shiftLeft_eq]
  omega

theorem parts_of_components {x : Float} {s : Sign} {exponent : BitVec 11} {fraction : BitVec 52}
    (bits : x.toBits.toBitVec = packComponents .binary64 s exponent fraction) :
    parts x =
      if exponent.toNat = 2047 then
        if fraction.toNat = 0 then .infinite (s.toBitVec.toNat == 1) else .nan
      else if exponent.toNat = 0 then .finite (s.toBitVec.toNat == 1) fraction.toNat (-1074)
      else .finite (s.toBitVec.toNat == 1) (2 ^ 52 + fraction.toNat) (exponent.toNat - 1075) := by
  have value : x.toBits.toNat = s.toBitVec.toNat * 2 ^ 63 + exponent.toNat * 2 ^ 52 + fraction.toNat := by
    rw [← UInt64.toNat_toBitVec, bits, toNat_packComponents]
  have sign := s.toBitVec.isLt
  have middle := exponent.isLt
  have low := fraction.isLt
  have first : x.toBits.toNat / 2 ^ 63 % 2 = s.toBitVec.toNat := by omega
  have second : x.toBits.toNat / 2 ^ 52 % 2048 = exponent.toNat := by omega
  have third : x.toBits.toNat % 2 ^ 52 = fraction.toNat := by omega
  simp only [parts, Parts.ofBits, Nat.pow_eq, first, second, third]

/-- The whole part of a number is no larger than the number. -/
theorem scaleBinary_le (m : Nat) (e : Int) :
    (((scaleBinary m 1 e).1 / (scaleBinary m 1 e).2 : Nat) : ℚ) ≤ m * 2 ^ e := by
  unfold scaleBinary
  split
  case isTrue up =>
    obtain ⟨n, rfl⟩ := Int.eq_ofNat_of_zero_le up
    simp
  case isFalse down =>
    obtain ⟨n, rfl⟩ : ∃ n : Nat, e = -n := ⟨(-e).toNat, by omega⟩
    have := dropped_le m n (-n)
    simpa using this

/-- A number of at most 52 bits, shifted out by as many or more, has no whole part. -/
theorem scaleBinary_small {m : Nat} {e : Int} (small : m < 2 ^ 52) (low : e ≤ -52) :
    (scaleBinary m 1 e).1 / (scaleBinary m 1 e).2 = 0 := by
  have negative : ¬ 0 ≤ e := by omega
  simp only [scaleBinary, negative, if_false, one_mul]
  exact Nat.div_eq_of_lt (lt_of_lt_of_le small (Nat.pow_le_pow_right (by decide) (by omega)))

theorem toNat_truncated_le {x : Float} {negative : Bool} {m : Nat} {e t : Int}
    (finite : parts x = .finite negative m e) (whole : truncated? x = some t) :
    t.toNat ≤ (scaleBinary m 1 e).1 / (scaleBinary m 1 e).2 := by
  rw [truncated?, finite] at whole
  have signed : (if negative = true then -(((scaleBinary m 1 e).1 / (scaleBinary m 1 e).2 : Nat) : Int)
      else ((scaleBinary m 1 e).1 / (scaleBinary m 1 e).2 : Nat)) = t := Option.some.inj whole
  rw [← signed]
  generalize (scaleBinary m 1 e).1 / (scaleBinary m 1 e).2 = n
  split <;> omega

/-- A double with a whole part is a number, and a number below the normal ones has nought as its whole part. -/
theorem truncated_components {x : Float} {s : Sign} {exponent : BitVec 11} {fraction : BitVec 52} {t : Int}
    (bits : x.toBits.toBitVec = packComponents .binary64 s exponent fraction) (whole : truncated? x = some t) :
    exponent.toNat ≠ 2047 ∧ (exponent.toNat = 0 → t.toNat = 0) ∧
      (exponent.toNat ≠ 0 → (t.toNat : ℚ) ≤ (2 ^ 52 + fraction.toNat : Nat) * 2 ^ ((exponent.toNat : Int) - 1075)) := by
  have read := parts_of_components bits
  have number : exponent.toNat ≠ 2047 := by
    intro special
    rw [if_pos special] at read
    unfold truncated? at whole
    rw [read] at whole
    split_ifs at whole
  rw [if_neg number] at read
  refine ⟨number, fun least => ?_, fun normal => ?_⟩
  · rw [if_pos least] at read
    have := toNat_truncated_le read whole
    rwa [scaleBinary_small fraction.isLt (by decide), Nat.le_zero] at this
  · rw [if_neg normal] at read
    exact le_trans (by exact_mod_cast toNat_truncated_le read whole) (scaleBinary_le _ _)

/-- The whole part of a double is no larger than the number that it was packed from. -/
theorem truncated_pack_le {u : UnpackedFloat} {t : Int} (whole : truncated? (.ofModel (.pack u)) = some t) :
    (t.toNat : ℚ) ≤ magnitude u := by
  have packed {s : Sign} {exponent : BitVec 11} {fraction : BitVec 52}
      (bits : UnpackedFloat.pack .binary64 u = packComponents .binary64 s exponent fraction) :=
    truncated_components (x := .ofModel (.pack u)) bits whole
  cases u with
  | notANumber => exact ((packed rfl).1 rfl).elim
  | infinity s => exact ((packed rfl).1 rfl).elim
  | zero s => rw [(packed rfl).2.1 rfl]; exact magnitude_nonneg _
  | finite s m e pos =>
      unfold UnpackedFloat.pack at packed
      dsimp only at packed
      split_ifs at packed with large normal
      · exact ((packed rfl).1 rfl).elim
      · have log : m.log2 = 52 := by
          have : Format.binary64.mantissaBits = 53 := rfl
          omega
        have atLeast : 2 ^ 52 ≤ m := log ▸ Nat.log2_self_le pos.ne'
        have below : m < 2 ^ 53 := (Nat.log2_lt pos.ne').mp (by omega)
        have fraction : (BitVec.ofNat 52 m).toNat = m - 2 ^ 52 := by rw [BitVec.toNat_ofNat]; omega
        have exponent : (BitVec.ofNat 11 (e + Format.binary64.exponentBias + (52 : Nat)).toNat).toNat =
            (e + 1075).toNat := by
          have bias : (Format.binary64.exponentBias : Int) = 1023 := rfl
          rw [BitVec.toNat_ofNat]
          omega
        obtain ⟨-, least, number⟩ := packed rfl
        rw [exponent] at least number
        by_cases low : (e + 1075).toNat = 0
        · rw [least low]; exact magnitude_nonneg _
        · rw [fraction, Nat.add_sub_cancel' atLeast, show ((e + 1075).toNat : Int) - 1075 = e by omega] at number
          exact number low
      · rw [(packed rfl).2.1 rfl]; exact magnitude_nonneg _

/-! ## The double nearest to a whole number -/

/-- Above nought, and no greater than a bound unless infinite. -/
def AtMost (bound : ℚ) : UnpackedFloat → Prop
  | .finite .positive m e _ => m * 2 ^ e ≤ bound
  | .infinity .positive => True
  | _ => False

theorem AtMost.unsigned {bound : ℚ} {u : UnpackedFloat} (hu : AtMost bound u) : Unsigned u := by
  cases u with
  | notANumber | zero => exact hu.elim
  | infinity s =>
      cases s with
      | negative => exact hu.elim
      | positive => rfl
  | finite s m e pos =>
      cases s with
      | negative => exact hu.elim
      | positive => rfl

theorem roundDiv_bounds (n d : Nat) : n / d ≤ roundDiv n d ∧ roundDiv n d ≤ n / d + 1 := by
  simp only [roundDiv]
  split <;> omega

theorem unpack_normal (s : Sign) (exponent : BitVec 11) (fraction : BitVec 52) (normal : exponent.toNat ≠ 0)
    (finite : exponent.toNat ≠ 2047) :
    ∃ pos, UnpackedFloat.unpack .binary64 (packComponents .binary64 s exponent fraction) =
      .finite s (2 ^ 52 + fraction.toNat) (exponent.toNat - 1075) pos := by
  have notLeast : exponent ≠ 0#11 := fun same => normal (by rw [same]; rfl)
  have notGreatest : exponent ≠ -1#11 := fun same => finite (by rw [same]; rfl)
  have leading : (1#1 ++ fraction).toNat = 2 ^ 52 + fraction.toNat := by
    rw [BitVec.toNat_append, ← Nat.shiftLeft_add_eq_or_of_lt fraction.isLt]
    simp [Nat.shiftLeft_eq]
  refine ⟨by omega, ?_⟩
  simp only [UnpackedFloat.unpack, unpackMantissa_packComponents, unpackExponent_packComponents,
    unpackSign_packComponents, Sign.ofBitVec_toBitVec, notLeast, notGreatest, if_false, leading]
  rfl

/-- The 53 bits of a whole number from its leading one, noughts after it if it has fewer. -/
theorem leading_bits {n : Nat} (pos : 0 < n) :
    2 ^ 52 ≤ (scaleBinary n 1 (-(n.log2 - 52))).1 / (scaleBinary n 1 (-(n.log2 - 52))).2 ∧
      (scaleBinary n 1 (-(n.log2 - 52))).1 / (scaleBinary n 1 (-(n.log2 - 52))).2 < 2 ^ 53 := by
  have low := Nat.log2_self_le pos.ne'
  have high : n < 2 ^ (n.log2 + 1) := Nat.lt_log2_self
  unfold scaleBinary
  split
  case isTrue short =>
    obtain ⟨k, few⟩ := Nat.exists_eq_add_of_le (show n.log2 ≤ 52 by omega)
    have missing : (-((n.log2 : Int) - 52)).toNat = k := by omega
    simp only [Nat.pow_eq, missing, Nat.div_one]
    constructor
    · calc 2 ^ 52 = 2 ^ n.log2 * 2 ^ k := by rw [← Nat.pow_add, ← few]
        _ ≤ n * 2 ^ k := Nat.mul_le_mul_right _ low
    · calc n * 2 ^ k < 2 ^ (n.log2 + 1) * 2 ^ k := Nat.mul_lt_mul_of_pos_right high (Nat.two_pow_pos k)
        _ = 2 ^ 53 := by rw [← Nat.pow_add]; congr 1; omega
  case isFalse long =>
    obtain ⟨k, many⟩ := Nat.exists_eq_add_of_le (show 52 ≤ n.log2 by omega)
    have dropped : (- -((n.log2 : Int) - 52)).toNat = k := by omega
    simp only [Nat.pow_eq, dropped, one_mul]
    rw [Nat.le_div_iff_mul_le (Nat.two_pow_pos k), Nat.div_lt_iff_lt_mul (Nat.two_pow_pos k), ← Nat.pow_add,
      ← Nat.pow_add]
    exact ⟨many ▸ low, by rwa [show 53 + k = n.log2 + 1 by omega]⟩

theorem binaryExponent_whole {n : Nat} (pos : 0 < n) : binaryExponent n 1 = n.log2 - 52 := by
  have enough : ¬ (scaleBinary n 1 (-(n.log2 - 52))).1 < 2 ^ 52 * (scaleBinary n 1 (-(n.log2 - 52))).2 :=
    fun few => absurd (Nat.div_lt_of_lt_mul (Nat.mul_comm _ _ ▸ few)) (leading_bits pos).1.not_gt
  have one : Nat.log2 1 = 0 := by decide
  simp only [binaryExponent, Nat.pow_eq, one, Nat.cast_zero, sub_zero, if_neg enough]
  omega

theorem unpack_nearestInt {n : Nat} (exponent : BitVec 11) (fraction : BitVec 52)
    (bits : nearestBits n 1 = exponent.toNat * 2 ^ 52 + fraction.toNat)
    (number : exponent.toNat = 2047 → fraction.toNat = 0) :
    (nearestInt n 1).toModel.unpack =
      UnpackedFloat.unpack .binary64 (packComponents .binary64 .positive exponent fraction) := by
  have word : (UInt64.ofNat (nearestBits n 1)).toBitVec = packComponents .binary64 .positive exponent fraction := by
    have e := exponent.isLt
    have f := fraction.isLt
    refine BitVec.eq_of_toNat_eq ?_
    rw [toNat_packComponents, UInt64.toNat_toBitVec, UInt64.toNat_ofNat', Nat.mod_eq_of_lt (by omega), bits]
    change _ = 0 * 2 ^ 63 + _ + _
    omega
  have read : (nearestInt n 1).toModel.unpack = UnpackedFloat.unpack .binary64
      (UnpackedFloat.pack .binary64 (UnpackedFloat.unpack .binary64 (UInt64.ofNat (nearestBits n 1)).toBitVec)) := by
    have positive : ¬ (n : Int) < 0 := by omega
    simp only [nearestInt, nearest, positive, decide_false, Bool.false_eq_true, if_false, Nat.zero_add,
      Int.natAbs_natCast]
    rfl
  have notNaN : isNaNBits (packComponents .binary64 .positive exponent fraction) = false := by
    simp only [isNaNBits, unpackExponent_packComponents, unpackMantissa_packComponents]
    refine decide_eq_false fun nan => nan.2 (BitVec.eq_of_toNat_eq ?_)
    rw [number (by rw [nan.1]; rfl)]
    rfl
  rw [read, word, pack_unpack, notNaN]
  rfl

/-- One more than the first 53 bits of a whole number is at most one part in `2 ^ 52` too many. -/
theorem rounded_up_le {n k : Nat} (pos : 0 < n) (leading : (k : ℚ) ≤ n * 2 ^ (-((n.log2 : Int) - 52))) :
    ((k : ℚ) + 1) * 2 ^ ((n.log2 : Int) - 52) ≤ n * (1 + 1 / 2 ^ 52) := by
  have unit : (0 : ℚ) < 2 ^ ((n.log2 : Int) - 52) := by positivity
  have last : (2 : ℚ) ^ ((n.log2 : Int) - 52) ≤ n * (1 / 2 ^ 52) := by
    rw [zpow_sub₀ (by norm_num), zpow_natCast]
    have : (2 : ℚ) ^ n.log2 ≤ n := by exact_mod_cast Nat.log2_self_le pos.ne'
    norm_num
    linarith only [this]
  calc ((k : ℚ) + 1) * 2 ^ ((n.log2 : Int) - 52)
      ≤ (n * 2 ^ (-((n.log2 : Int) - 52)) + 1) * 2 ^ ((n.log2 : Int) - 52) :=
        mul_le_mul_of_nonneg_right (by linarith only [leading]) unit.le
    _ = n + 2 ^ ((n.log2 : Int) - 52) := by
        rw [zpow_neg, add_mul, mul_assoc, inv_mul_cancel₀ unit.ne', mul_one, one_mul]
    _ ≤ n * (1 + 1 / 2 ^ 52) := by linarith only [last]

/-- The double nearest to a whole number is at most one part in `2 ^ 52` above it. -/
theorem atMost_nearestInt {n : Nat} (pos : 0 < n) :
    AtMost (n * (1 + 1 / 2 ^ 52)) (nearestInt n 1).toModel.unpack := by
  obtain ⟨enough, few⟩ := leading_bits pos
  obtain ⟨down, up⟩ := roundDiv_bounds (scaleBinary n 1 (-(n.log2 - 52))).1 (scaleBinary n 1 (-(n.log2 - 52))).2
  have exact := scaleBinary_le n (-(n.log2 - 52))
  have bits : nearestBits n 1 = min (((n.log2 : Int) - 52 + 1074).toNat * 2 ^ 52 +
      roundDiv (scaleBinary n 1 (-(n.log2 - 52))).1 (scaleBinary n 1 (-(n.log2 - 52))).2) (2047 * 2 ^ 52) := by
    simp only [nearestBits, pos.ne', if_false, binaryExponent_whole pos, Nat.pow_eq]
  generalize roundDiv (scaleBinary n 1 (-(n.log2 - 52))).1 (scaleBinary n 1 (-(n.log2 - 52))).2 = r at *
  generalize (scaleBinary n 1 (-(n.log2 - 52))).1 / (scaleBinary n 1 (-(n.log2 - 52))).2 = k at *
  have size : (r : ℚ) * 2 ^ ((n.log2 : Int) - 52) ≤ n * (1 + 1 / 2 ^ 52) :=
    le_trans (mul_le_mul_of_nonneg_right (by exact_mod_cast up) (by positivity)) (rounded_up_le pos exact)
  by_cases large : nearestBits n 1 = 2047 * 2 ^ 52
  case pos =>
    rw [unpack_nearestInt (-1#11) 0#52 large fun _ => rfl]
    trivial
  case neg =>
    have exponent : (BitVec.ofNat 11 (nearestBits n 1 / 2 ^ 52)).toNat = nearestBits n 1 / 2 ^ 52 := by
      rw [BitVec.toNat_ofNat]; omega
    have fraction : (BitVec.ofNat 52 (nearestBits n 1)).toNat = nearestBits n 1 % 2 ^ 52 := BitVec.toNat_ofNat ..
    rw [unpack_nearestInt (.ofNat 11 (nearestBits n 1 / 2 ^ 52)) (.ofNat 52 (nearestBits n 1)) (by omega) (by omega)]
    obtain ⟨_, unpacked⟩ := unpack_normal .positive (.ofNat 11 (nearestBits n 1 / 2 ^ 52))
      (.ofNat 52 (nearestBits n 1)) (by omega) (by omega)
    rw [unpacked, AtMost, exponent, fraction]
    refine le_of_eq_of_le ?_ size
    have number : nearestBits n 1 = (n.log2 + 1022) * 2 ^ 52 + r := by
      rw [bits] at large ⊢
      omega
    rcases (show r ≤ 2 ^ 53 by omega).lt_or_eq with fits | carried
    · rw [number, show 2 ^ 52 + ((n.log2 + 1022) * 2 ^ 52 + r) % 2 ^ 52 = r by omega,
        show (((n.log2 + 1022) * 2 ^ 52 + r) / 2 ^ 52 : Nat) - (1075 : Int) = n.log2 - 52 by omega]
    · -- the rounded bits are one too many, and the first of them is carried over into the exponent
      subst carried
      rw [number, show 2 ^ 52 + ((n.log2 + 1022) * 2 ^ 52 + 2 ^ 53) % 2 ^ 52 = 2 ^ 52 by omega,
        show (((n.log2 + 1022) * 2 ^ 52 + 2 ^ 53) / 2 ^ 52 : Nat) - (1075 : Int) = n.log2 - 52 + 1 by omega,
        zpow_add₀ (by norm_num)]
      norm_num
      ring

/-! ## Products with a share -/

theorem mantissa_lt {b : BitVec 64} {s : Sign} {m : Nat} {e : Int} {pos : 0 < m}
    (unpacked : UnpackedFloat.unpack .binary64 b = .finite s m e pos) : m < 2 ^ 53 := by
  unfold UnpackedFloat.unpack at unpacked
  dsimp only at unpacked
  split_ifs at unpacked
  · obtain ⟨_, rfl, _⟩ := unpacked
    exact lt_trans (BitVec.isLt _) (by decide)
  · obtain ⟨_, rfl, _⟩ := unpacked
    exact BitVec.isLt _

/-- A share of no more than a half is a finite number. -/
theorem unpack_share {x : Float} (above : 0 < x) (below : x ≤ 0.5) :
    ∃ m e pos, x.toModel.unpack = .finite .positive m e pos ∧ (m : ℚ) * 2 ^ e ≤ 1 / 2 := by
  have half : (0.5 : Float).toModel.unpack = .finite .positive (2 ^ 52) (-53) (by decide) := by rfl
  have more : UnpackedFloat.compare (.zero .positive) x.toModel.unpack = some .lt :=
    beq_iff_eq.mp (of_decide_eq_true above)
  have most : (x.toModel.unpack.compare (0.5 : Float).toModel.unpack).any (·.isLE) = true :=
    of_decide_eq_true below
  rw [half] at most
  have few {s m e pos} (unpacked : x.toModel.unpack = .finite s m e pos) : m < 2 ^ 53 := mantissa_lt unpacked
  generalize x.toModel.unpack = u at *
  cases u with
  | notANumber => cases more
  | zero => cases more
  | infinity s =>
      cases s with
      | negative => cases more
      | positive => cases most
  | finite s m e pos =>
      cases s with
      | negative => cases more
      | positive =>
          refine ⟨m, e, pos, rfl, ?_⟩
          have order : ((compare e (-53)).then (compare m (2 ^ 52))).isLE = true := most
          rcases lt_trichotomy e (-53) with less | rfl | greater
          · have digits : (m : ℚ) ≤ 2 ^ 53 := by exact_mod_cast (few rfl).le
            have scale : (2 : ℚ) ^ e ≤ 2 ^ (-54 : Int) := zpow_le_zpow_right₀ (by norm_num) (by omega)
            calc (m : ℚ) * 2 ^ e
                ≤ 2 ^ 53 * 2 ^ (-54 : Int) := mul_le_mul digits scale (by positivity) (by positivity)
              _ = 1 / 2 := by norm_num
          · have digits : (m : ℚ) ≤ 2 ^ 52 := by exact_mod_cast Nat.isLE_compare.mp order
            calc (m : ℚ) * 2 ^ (-53 : Int)
                ≤ 2 ^ 52 * 2 ^ (-53 : Int) := mul_le_mul_of_nonneg_right digits (by positivity)
              _ = 1 / 2 := by norm_num
          · rw [Int.compare_eq_gt.mpr greater] at order
            cases order

/-- The whole part of a share of a whole number, of no more than a half of it, is no greater than the number. -/
theorem truncated_share_le {n : Nat} (pos : 0 < n) {x : Float} (above : 0 < x) (below : x ≤ 0.5) {t : Int}
    (whole : truncated? (nearestInt n 1 * x) = some t) : t.toNat ≤ n := by
  obtain ⟨m, e, mpos, share, small⟩ := unpack_share above below
  have near := atMost_nearestInt pos
  change truncated? (.ofModel (.pack (UnpackedFloat.mul .binary64 (nearestInt n 1).toModel.unpack
    x.toModel.unpack))) = some t at whole
  have size := truncated_pack_le whole
  rw [share] at size
  generalize (nearestInt n 1).toModel.unpack = u at *
  cases u with
  | notANumber => exact near.elim
  | zero s => exact near.elim
  | infinity s =>
      have none : (t.toNat : ℚ) ≤ 0 := size
      have : t.toNat = 0 := by exact_mod_cast le_antisymm none (by positivity)
      omega
  | finite s k f kpos =>
      cases s with
      | negative => exact near.elim
      | positive =>
          have near : (k : ℚ) * 2 ^ f ≤ n * (1 + 1 / 2 ^ 52) := near
          have rounded := le_trans size (magnitude_round_le _ (Nat.mul_pos kpos mpos) (f + e))
          have product : ((k * m : Nat) : ℚ) * 2 ^ (f + e) = k * 2 ^ f * (m * 2 ^ e) := by
            rw [zpow_add₀ (by norm_num)]
            push_cast
            ring
          have part : k * 2 ^ f * (m * 2 ^ e) ≤ n * (1 + 1 / 2 ^ 52) * (1 / 2 : ℚ) :=
            mul_le_mul near small (by positivity) (by positivity)
          have least : (2 : ℚ) ^ (-1074 : Int) ≤ 1 / 4 :=
            le_of_le_of_eq (zpow_le_zpow_right₀ (by norm_num) (by norm_num : (-1074 : Int) ≤ -2)) (by norm_num)
          rw [product] at rounded
          have : (t.toNat : ℚ) < (n + 1 : Nat) := by
            have : (1 : ℚ) ≤ n := by exact_mod_cast pos
            push_cast
            nlinarith only [rounded, part, least, this]
          exact Nat.lt_succ_iff.mp (by exact_mod_cast this)

end SvgForm.Decimal
