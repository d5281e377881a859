import SvgForm.Proofs.Text.Cut
import SvgForm.Proofs.Text.Digit
import SvgForm.Reference
/-! # Characters by number

A pattern of characters names one by its number, some in a row of numbers, or those from one number to another.
However they are named, the characters are the same, and a number that no character of the text has gives none.
-/

namespace SvgForm.Reference

open Text (natDigits)

variable {text pattern : List Char} {a b n : Nat}

/-! ## One character, and some -/

/-- The character of a number; none has the number nought. -/
theorem charOf_natDigits (text : List Char) (n : Nat) :
    charOf text (natDigits n) = if 1 ≤ n then text[n - 1]?.toList else [] := by
  rw [charOf, Text.firstInt?_natDigits]
  by_cases first : 1 ≤ n
  · have counted : (1 : Int) ≤ n := by omega
    have place : (n : Int).toNat - 1 = n - 1 := by omega
    simp only [counted, first, if_true, place]
  · have uncounted : ¬ (1 : Int) ≤ n := by omega
    simp only [uncounted, first, if_false]

theorem charsOf_plain (comma : ',' ∉ pattern) (hyphen : '-' ∉ pattern) :
    charsOf text pattern = charOf text pattern := by
  rw [charsOf, if_neg comma, Text.cutAtChar?_eq_none hyphen]

theorem charsOf_natDigits (text : List Char) (n : Nat) : charsOf text (natDigits n) = charOf text (natDigits n) :=
  charsOf_plain (Text.not_mem_natDigits (by decide)) (Text.not_mem_natDigits (by decide))

/-- A row of patterns for one character each chooses what they choose one after another. -/
theorem charsOf_intercalate {parts : List (List Char)} (some : parts ≠ [])
    (plain : ∀ p ∈ parts, ',' ∉ p ∧ '-' ∉ p) :
    charsOf text ([','].intercalate parts) = parts.flatMap (charOf text) := by
  match parts, some with
  | [p], _ =>
      obtain ⟨comma, hyphen⟩ := plain p List.mem_cons_self
      simp [charsOf_plain comma hyphen]
  | p :: q :: rest, _ =>
      have listed : ',' ∈ [','].intercalate (p :: q :: rest) := by simp [List.intercalate]
      rw [charsOf, if_pos listed, List.splitOn_intercalate _ (fun part mem => (plain part mem).1) (by simp)]

/-! ## Ranges -/

theorem charsOf_hyphen (text : List Char) (a b : Nat) :
    charsOf text (natDigits a ++ '-' :: natDigits b) = charRange text a b := by
  have comma : ',' ∉ natDigits a ++ '-' :: natDigits b := by
    simp [Text.not_mem_natDigits (c := ',') (by decide)]
  have cut : Text.cutAtChar? '-' (natDigits a ++ '-' :: natDigits b) = some (natDigits a, natDigits b) :=
    Text.cutAtChar?_append (Text.not_mem_natDigits (by decide)) _
  rw [charsOf, if_neg comma, cut]
  simp only [Text.firstInt?_natDigits]

theorem charRange_natCast (text : List Char) (a b : Nat) :
    charRange text a b = (text.take b).drop (a - 1) := by
  have last : (max (b : Int) 0).toNat = b := by omega
  have first : (max (a : Int) 1).toNat - 1 = a - 1 := by omega
  rw [charRange, last, first]

theorem charRange_of_lt (backwards : b < a) : charRange text a b = [] := by
  rw [charRange_natCast]
  refine List.drop_eq_nil_of_le ?_
  rw [List.length_take]
  omega

/-- A range that goes on by one number has the character of this number besides. -/
theorem charRange_succ (le : a ≤ b + 1) :
    charRange text a (b + 1 : Nat) = charRange text a b ++ charOf text (natDigits (b + 1)) := by
  have none : (text[b]?.toList).drop (a - 1 - (text.take b).length) = text[b]?.toList := by
    cases found : text[b]? with
    | none => simp
    | some c =>
        have within := (List.getElem?_eq_some_iff.mp found).1
        have all : a - 1 - (text.take b).length = 0 := by
          rw [List.length_take]
          omega
        rw [all, List.drop_zero]
  rw [charRange_natCast, charRange_natCast, charOf_natDigits, if_pos (Nat.le_add_left 1 b), Nat.add_sub_cancel,
    List.take_add_one, List.drop_append, none]

/-- A range has the characters of its numbers. -/
theorem charRange_eq_flatMap (text : List Char) (a b : Nat) :
    charRange text a b = (List.range' a (b + 1 - a)).flatMap fun i => charOf text (natDigits i) := by
  induction b with
  | zero =>
      have none : charRange text a (0 : Nat) = [] := by rw [charRange_natCast, List.take_zero, List.drop_nil]
      rw [none]
      cases a <;> simp [charOf_natDigits]
  | succ b ih =>
      by_cases le : a ≤ b + 1
      · have longer : b + 1 + 1 - a = b + 1 - a + 1 := by omega
        have next : a + (b + 1 - a) = b + 1 := by omega
        rw [charRange_succ le, ih, longer, List.range'_1_concat, next, List.flatMap_append, List.flatMap_singleton]
      · have none : b + 1 + 1 - a = 0 := by omega
        rw [charRange_of_lt (by omega), none, List.range'_zero, List.flatMap_nil]

/-- The characters of a range are those of its numbers, named one by one or in a row. A range backwards has none. -/
theorem charsOf_range (text : List Char) (a b : Nat) :
    (a ≤ b →
      charsOf text (natDigits a ++ '-' :: natDigits b) =
          ((List.range' a (b + 1 - a)).flatMap fun i => charsOf text (natDigits i)) ∧
        charsOf text (natDigits a ++ '-' :: natDigits b) =
          charsOf text ([','].intercalate ((List.range' a (b + 1 - a)).map natDigits))) ∧
      (b < a → charsOf text (natDigits a ++ '-' :: natDigits b) = []) := by
  rw [charsOf_hyphen]
  refine ⟨fun le => ?_, charRange_of_lt⟩
  have listed : charsOf text ([','].intercalate ((List.range' a (b + 1 - a)).map natDigits)) =
      (List.range' a (b + 1 - a)).flatMap fun i => charOf text (natDigits i) := by
    rw [charsOf_intercalate, List.flatMap_map]
    · have some : b + 1 - a ≠ 0 := by omega
      simpa using some
    · intro part mem
      obtain ⟨i, -, rfl⟩ := List.mem_map.mp mem
      exact ⟨Text.not_mem_natDigits (by decide), Text.not_mem_natDigits (by decide)⟩
  simp only [charsOf_natDigits]
  exact ⟨charRange_eq_flatMap text a b, (charRange_eq_flatMap text a b).trans listed.symm⟩

/-- A range from before the first character to beyond the last, and one backwards. -/
theorem smith_ranges :
    charsOf "Smith".toList "0-7".toList = "Smith".toList ∧
      charsOf "Smith".toList "0-7".toList = charsOf "Smith".toList "0,1,2,3,4,5,6,7".toList ∧
      charsOf "Smith".toList "4-2".toList = [] := by
  have forwards := (charsOf_range "Smith".toList 0 7).1 (by decide)
  have backwards := (charsOf_range "Smith".toList 4 2).2 (by decide)
  exact ⟨forwards.1.trans (by decide), forwards.2, backwards⟩

end SvgForm.Reference
