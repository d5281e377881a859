import Mathlib.Data.List.Basic
import Mathlib.Data.List.TakeWhile
import SvgForm.Text.Digit
/-! # Numbers and their digits

A number is read back from its decimal digits, in a text of digits and as the first number of a text. Noughts before
it change nothing.
-/

namespace SvgForm.Text

variable {c d : Char} {n : Nat} {s : List Char}

/-! ## Digits of ASCII -/

theorem digit?_ascii (digit : c.isDigit = true) : digit? c = some (c.toNat - '0'.toNat) := by
  have low : 48 ≤ c.toNat := (Char.isDigit_iff_toNat.mp digit).1
  have high : c.toNat < 48 + 10 := Nat.lt_succ_of_le (Char.isDigit_iff_toNat.mp digit).2
  have first : noughts = 48 :: noughts.tail := rfl
  rw [digit?, first, List.find?_cons, decide_eq_true low, decide_eq_true high]
  rfl

theorem isDigit_ascii (digit : c.isDigit = true) : isDigit c = true := by
  rw [isDigit, digit?_ascii digit, Option.isSome_some]

theorem ne_of_isDigit (digit : c.isDigit = true) (other : d.isDigit = false) : c ≠ d := by
  rintro rfl
  rw [other] at digit
  cases digit

theorem natOfDigits_ascii (digits : ∀ c ∈ s, c.isDigit = true) : natOfDigits s = Nat.ofDigitChars 10 s 0 := by
  refine List.foldl_ext _ _ 0 fun n c mem => ?_
  rw [digitValue, digit?_ascii (digits c mem), Option.getD_some]

/-! ## The digits of a number -/

theorem isDigit_of_mem_natDigits (mem : c ∈ natDigits n) : c.isDigit = true :=
  Nat.isDigit_of_mem_toDigits (by decide) (by decide) mem

theorem not_mem_natDigits (other : c.isDigit = false) : c ∉ natDigits n :=
  fun mem => ne_of_isDigit (isDigit_of_mem_natDigits mem) other rfl

theorem natOfDigits_natDigits (n : Nat) : natOfDigits (natDigits n) = n := by
  rw [natOfDigits_ascii fun c mem => isDigit_of_mem_natDigits mem, natDigits, Nat.ofDigitChars_ten_toDigits]

theorem readNat?_natDigits (n : Nat) : readNat? (natDigits n) = some n := by
  have digits : (natDigits n).all isDigit = true :=
    List.all_eq_true.mpr fun c mem => isDigit_ascii (isDigit_of_mem_natDigits mem)
  rw [readNat?, if_pos ⟨Nat.toDigits_ne_nil, digits⟩, natOfDigits_natDigits]

/-- A text of digits is the first number in it. -/
theorem firstInt?_of_readNat? (read : readNat? s = some n) : firstInt? s = some (n : Int) := by
  rw [readNat?] at read
  split at read
  case isFalse => cases read
  case isTrue digits =>
    obtain ⟨some, digits⟩ := digits
    obtain rfl := Option.some.inj read
    have whole : s.takeWhile isDigit = s := List.takeWhile_eq_self_iff.mpr (List.all_eq_true.mp digits)
    cases s with
    | nil => exact absurd rfl some
    | cons c s =>
        have unsigned : c ≠ '-' := by
          rintro rfl
          exact absurd (List.all_eq_true.mp digits '-' List.mem_cons_self) (by decide)
        rw [firstInt?, leadingInt?, whole, if_pos some]
        intro rest signed
        exact unsigned (List.cons.inj signed).1

theorem firstInt?_natDigits (n : Nat) : firstInt? (natDigits n) = some (n : Int) :=
  firstInt?_of_readNat? (readNat?_natDigits n)

end SvgForm.Text
