import Mathlib.Data.List.DropRight
import SvgForm.Text.Blank
/-! # Trimming texts

What is left of a text without the blanks around it. Trimming takes characters away at the ends only, and a second
time it takes nothing.
-/

namespace SvgForm.Text

variable {c : Char} {t : List Char}

theorem dropEndWhile_eq_rdropWhile (p : Char → Bool) (t : List Char) : dropEndWhile p t = t.rdropWhile p := by
  induction t with
  | nil => rfl
  | cons c t ih =>
      rw [dropEndWhile, ih, List.rdropWhile, List.rdropWhile, List.reverse_cons, List.dropWhile_append]
      cases kept : t.reverse.dropWhile p with
      | nil => cases last : p c <;> simp [last]
      | cons d rest => simp

theorem trim_eq (t : List Char) : trim t = (t.dropWhile isBlank).rdropWhile isBlank :=
  dropEndWhile_eq_rdropWhile _ _

theorem trim_infix (t : List Char) : trim t <:+: t := by
  rw [trim_eq]
  exact (List.rdropWhile_prefix _ _).isInfix.trans (List.dropWhile_suffix _).isInfix

theorem isBlank_of_dropWhile {rest : List Char} (kept : t.dropWhile isBlank = c :: rest) : isBlank c = false := by
  have first := List.head?_dropWhile_not isBlank t
  rwa [kept] at first

theorem trim_eq_nil_iff : trim t = [] ↔ ∀ c ∈ t, isBlank c = true := by
  rw [trim_eq, ← List.dropWhile_eq_nil_iff, List.rdropWhile_eq_nil_iff]
  constructor
  · intro all
    cases kept : t.dropWhile isBlank with
    | nil => rfl
    | cons c rest =>
        have blank := all c (by simp [kept])
        rw [isBlank_of_dropWhile kept] at blank
        cases blank
  · intro none
    simp [none]

/-- A text that neither begins nor ends with a blank stays as it is. -/
theorem trim_of_solid_ends (first : ∀ c ∈ t.head?, isBlank c = false) (last : ∀ c ∈ t.getLast?, isBlank c = false) :
    trim t = t := by
  have start : t.dropWhile isBlank = t := by
    cases t with
    | nil => rfl
    | cons c t => exact List.dropWhile_cons_of_neg (by simp [first c rfl])
  rw [trim_eq, start]
  rcases List.eq_nil_or_concat' t with rfl | ⟨t, c, rfl⟩
  · rfl
  · exact List.rdropWhile_concat_neg _ _ _ (by simp [last c (by simp)])

theorem trim_cons_blank (blank : isBlank c = true) (t : List Char) : trim (c :: t) = trim t := by
  rw [trim_eq, List.dropWhile_cons_of_pos blank, trim_eq]

theorem dropWhile_trim (t : List Char) : (trim t).dropWhile isBlank = trim t := by
  rw [trim_eq]
  cases kept : t.dropWhile isBlank with
  | nil => rfl
  | cons c rest =>
      have start := List.rdropWhile_prefix isBlank (c :: rest)
      cases left : (c :: rest).rdropWhile isBlank with
      | nil => rfl
      | cons d more =>
          rw [left, List.cons_prefix_cons] at start
          apply List.dropWhile_cons_of_neg
          simp [start.1, isBlank_of_dropWhile kept]

theorem trim_trim (t : List Char) : trim (trim t) = trim t := by
  rw [trim_eq (trim t), dropWhile_trim, trim_eq]
  exact List.rdropWhile_idempotent _ _

end SvgForm.Text
