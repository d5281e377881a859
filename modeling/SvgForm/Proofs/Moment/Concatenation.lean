import Mathlib.Data.List.Infix
import SvgForm.Moment.Pattern
import SvgForm.Proofs.Text.Cut
/-! # Patterns one after another

Two patterns written one after the other write what each of them writes. All it takes is that the first leaves no
bracket open and that no letter stands on both sides of the seam, since codes are runs of one letter.
-/

namespace SvgForm

namespace Text

variable {letter : Char} {text rest : List Char}

theorem after?_cons_of_head? {head : List Char} (other : letter ∉ text.head?) :
    after? (letter :: head) text = none := by
  cases text with
  | nil => rfl
  | cons c text =>
      refine if_neg fun same => other ?_
      rw [same]
      rfl

/-- A run of a letter that a text starts with ends in the text, unless the letter stands on both sides of its end. -/
theorem after?_replicate_append (some : text ≠ []) (apart : letter ∈ text.getLast? → letter ∉ rest.head?) (k : Nat) :
    after? (List.replicate k letter) (text ++ rest) = (after? (List.replicate k letter) text).map (· ++ rest) := by
  induction k generalizing text with
  | zero => rfl
  | succ k ih =>
      obtain ⟨c, text, rfl⟩ := List.exists_cons_of_ne_nil some
      rw [List.replicate_succ, List.cons_append, after?, after?]
      split
      case isFalse => rfl
      case isTrue same =>
        subst same
        cases text with
        | cons b text => exact ih (List.cons_ne_nil b text) apart
        | nil =>
            -- the text ends in the letter, so the run cannot go on after it
            cases k with
            | zero => rfl
            | succ k =>
                rw [List.replicate_succ, List.nil_append, after?_cons_of_head? (apart rfl), after?, Option.map_none]

end Text

namespace Moment

variable {c : Char} {text first rest : List Char}

/-! ## Seams -/

/-- Whether every bracket that opens has one that closes after it. -/
def Closed (pattern : List Char) : Prop :=
  ∀ after, '[' :: after <:+ pattern → ']' ∈ after

/-- Whether no letter ends one pattern and begins the next. -/
def Apart (first rest : List Char) : Prop :=
  ∀ c ∈ first.getLast?, c ∈ rest.head? → c.isAlpha = false

instance (pattern : List Char) : Decidable (Closed pattern) :=
  decidable_of_iff (∀ s ∈ pattern.tails, s.head? = some '[' → ']' ∈ s.tail) <| by
    constructor
    · intro h after ends
      exact h ('[' :: after) ((List.mem_tails _ _).mpr ends) rfl
    · intro h s mem opens
      obtain ⟨after, rfl⟩ := List.head?_eq_some_iff.mp opens
      exact h after ((List.mem_tails _ _).mp mem)

instance (first rest : List Char) : Decidable (Apart first rest) :=
  decidable_of_iff ((first.getLast?.all fun c => c ∈ rest.head? → c.isAlpha = false) = true) <| by
    simp only [Apart, Option.all_eq_true, decide_eq_true_eq, Option.mem_def]

theorem Closed.of_suffix (h : Closed first) (ends : text <:+ first) : Closed text :=
  fun after inside => h after (inside.trans ends)

theorem Apart.of_suffix (h : Apart first rest) (ends : text <:+ first) : Apart text rest := by
  obtain ⟨before, rfl⟩ := ends
  intro c last
  refine h c ?_
  rw [List.getLast?_append, Option.mem_def.mp last]
  rfl

/-! ## Parts across a seam -/

theorem spelling_eq_replicate (code : Code) :
    ∃ letter, letter.isAlpha = true ∧ code.spelling = List.replicate code.spelling.length letter := by
  refine ⟨code.spelling.headD ' ', ?_⟩
  cases code <;> decide

theorem Code.read?_append (some : text ≠ []) (apart : Apart text rest) :
    Code.read? (text ++ rest) = (Code.read? text).map fun (code, after) => (code, after ++ rest) := by
  rw [Code.read?, Code.read?, List.map_findSome?]
  congr 1
  funext code
  obtain ⟨letter, alpha, run⟩ := spelling_eq_replicate code
  have other : letter ∈ text.getLast? → letter ∉ rest.head? := by
    intro last start
    rw [apart letter last start] at alpha
    cases alpha
  have cut : Text.after? code.spelling (text ++ rest) = (Text.after? code.spelling text).map (· ++ rest) := by
    rw [run]
    exact Text.after?_replicate_append some other _
  simp [cut, Option.map_map, Function.comp_def]

theorem patternItem_append (closed : Closed (c :: text)) (apart : Apart (c :: text) rest) :
    patternItem c (text ++ rest) = ((patternItem c text).1, (patternItem c text).2 ++ rest) := by
  by_cases opens : c = '['
  · subst opens
    obtain ⟨inner, after, rfl, plain⟩ := List.eq_append_cons_of_mem (closed text List.suffix_rfl)
    have cut (more : List Char) :
        Text.cutAtChar? ']' (inner ++ ']' :: after ++ more) = some (inner, after ++ more) := by
      rw [List.append_assoc, List.cons_append, Text.cutAtChar?_append plain]
    have alone := cut []
    rw [List.append_nil, List.append_nil] at alone
    simp only [patternItem, if_true, cut, alone]
  · have read := Code.read?_append (List.cons_ne_nil c text) apart
    rw [List.cons_append] at read
    simp only [patternItem, opens, if_false, read]
    cases Code.read? (c :: text) <;> rfl

theorem patternItem_suffix (c : Char) (text : List Char) : (patternItem c text).2 <:+ c :: text := by
  simp only [patternItem]
  split
  case h_1 inner after found =>
    split at found
    case isTrue =>
      rw [Text.eq_of_cutAtChar? found]
      exact ⟨c :: (inner ++ [']']), by simp⟩
    case isFalse => cases found
  case h_2 =>
    split
    case h_1 code after found =>
      obtain ⟨code, -, here⟩ := List.exists_of_findSome?_eq_some found
      obtain ⟨after, cut, same⟩ := Option.map_eq_some_iff.mp here
      obtain ⟨rfl, rfl⟩ := Prod.mk.inj same
      exact ⟨_, (Text.after?_eq_some_iff.mp cut).symm⟩
    case h_2 => exact List.suffix_cons c text

/-- The parts of two patterns are those of the one and then those of the other. -/
theorem patternItems_append (closed : Closed first) (apart : Apart first rest) :
    patternItems (first ++ rest) = patternItems first ++ patternItems rest := by
  induction first using patternItems.induct with
  | case1 => rw [patternItems, List.nil_append, List.nil_append]
  | case2 c text ih =>
      have ends := patternItem_suffix c text
      rw [List.cons_append, patternItems, patternItem_append closed apart, patternItems, List.cons_append,
        ih (closed.of_suffix ends) (apart.of_suffix ends)]

/-- Two patterns write a date, or what is no date, as they do one by one. -/
theorem formatSource_append (closed : Closed first) (apart : Apart first rest) (source : Source) :
    formatSource source (first ++ rest) = formatSource source first ++ formatSource source rest := by
  cases read : ofSource? source with
  | none => simp [formatSource, read]
  | some m =>
      simp only [formatSource, read, format, patternItems_append closed apart, List.flatMap_append,
        Text.replaceChar, List.map_append]

/-- Codes and an underscore stand in brackets of the first, which ends in a code; the second begins with a run that is
no code as a whole, and leaves a bracket open. -/
theorem march_append :
    let first := "[DD_]_]ddMMM".toList
    let rest := "YYY[x".toList
    let source := Source.value (.text "2024-03-05T14:07:09")
    Closed first ∧ Apart first rest ∧ formatSource source first = "DD  ]ddMar".toList ∧
      formatSource source rest = "24Y[x".toList ∧
      formatSource source (first ++ rest) = formatSource source first ++ formatSource source rest := by
  intro first rest source
  have closed : Closed first := by decide
  have apart : Apart first rest := by decide
  exact ⟨closed, apart, by decide +kernel, by decide +kernel, formatSource_append closed apart source⟩

end Moment

end SvgForm
