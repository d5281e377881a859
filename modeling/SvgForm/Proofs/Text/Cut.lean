import Mathlib.Data.List.Infix
import Mathlib.Data.List.TakeWhile
import SvgForm.Text.Basic
/-! # Cutting texts

Where a text is cut at the first occurrence of a mark. A mark whose first character does not occur in it again
cannot begin in one text and end in another that starts with that character.
-/

namespace SvgForm.Text

variable {c : Char} {mark m s t : List Char}

theorem after?_eq_some_iff {head text rest : List Char} : after? head text = some rest ↔ text = head ++ rest := by
  induction head generalizing text with
  | nil => simp [after?]
  | cons h head ih =>
      cases text with
      | nil => simp [after?]
      | cons c text =>
          by_cases same : h = c
          · simp [after?, same, ih]
          · simp [after?, same, Ne.symm same]

theorem after?_append (head rest : List Char) : after? head (head ++ rest) = some rest :=
  after?_eq_some_iff.mpr rfl

theorem startsWith_iff {head text : List Char} : startsWith head text = true ↔ head <+: text := by
  rw [startsWith, Option.isSome_iff_exists]
  constructor
  · intro ⟨rest, found⟩
    exact ⟨rest, (after?_eq_some_iff.mp found).symm⟩
  · intro ⟨rest, found⟩
    exact ⟨rest, after?_eq_some_iff.mpr found.symm⟩

theorem after?_eq_none_iff {head text : List Char} : after? head text = none ↔ ¬ head <+: text := by
  rw [← startsWith_iff, startsWith, Option.not_isSome_iff_eq_none]

theorem before?_append (rest tail : List Char) : before? tail (rest ++ tail) = some rest := by
  rw [before?, List.reverse_append, after?_append, Option.map_some, List.reverse_reverse]

theorem before?_eq_some_iff {tail text rest : List Char} : before? tail text = some rest ↔ text = rest ++ tail := by
  refine ⟨fun found => ?_, fun same => same ▸ before?_append rest tail⟩
  obtain ⟨back, starts, rfl⟩ := Option.map_eq_some_iff.mp found
  rw [List.reverse_eq_iff.mp (after?_eq_some_iff.mp starts), List.reverse_append, List.reverse_reverse]

theorem dropNewlineAtEnd_of_not_mem {text : List Char} (h : '\n' ∉ text) : dropNewlineAtEnd text = text := by
  induction text with
  | nil => rfl
  | cons c text ih =>
      simp only [List.mem_cons, not_or] at h
      cases text with
      | nil => simp [dropNewlineAtEnd, Ne.symm h.1]
      | cons d text =>
          rw [dropNewlineAtEnd, ih h.2]
          intro newline
          exact absurd newline.symm h.1

theorem dropNewlineAtEnd_concat (solid : c ≠ '\n') (t : List Char) : dropNewlineAtEnd (t ++ [c]) = t ++ [c] := by
  induction t with
  | nil => simp [dropNewlineAtEnd, solid]
  | cons a t ih =>
      rw [List.cons_append, dropNewlineAtEnd, ih]
      intro newline last
      exact List.append_ne_nil_of_right_ne_nil t (List.cons_ne_nil c []) last

theorem dropNewlineAtEnd_append (t : List Char) : dropNewlineAtEnd (t ++ ['\n']) = t := by
  induction t with
  | nil => rfl
  | cons a t ih =>
      rw [List.cons_append, dropNewlineAtEnd, ih]
      intro newline last
      exact List.append_ne_nil_of_right_ne_nil t (List.cons_ne_nil '\n' []) last

/-- Nothing but a final newline is dropped. -/
theorem eq_dropNewlineAtEnd_append (t : List Char) : ∃ ending ∈ [[], ['\n']], t = dropNewlineAtEnd t ++ ending := by
  induction t with
  | nil => exact ⟨[], List.mem_cons_self, rfl⟩
  | cons a t ih =>
      by_cases last : a = '\n' ∧ t = []
      · obtain ⟨rfl, rfl⟩ := last
        exact ⟨['\n'], by simp, rfl⟩
      · obtain ⟨ending, mem, same⟩ := ih
        refine ⟨ending, mem, ?_⟩
        rw [dropNewlineAtEnd, List.cons_append, ← same]
        exact fun newline none => last ⟨newline, none⟩

theorem cutAtChar?_append {before : List Char} (h : c ∉ before) (rest : List Char) :
    cutAtChar? c (before ++ c :: rest) = some (before, rest) := by
  induction before with
  | nil => simp [cutAtChar?]
  | cons b before ih =>
      simp only [List.mem_cons, not_or] at h
      simp [cutAtChar?, Ne.symm h.1, ih h.2]

theorem cutAtChar?_eq_none {text : List Char} (h : c ∉ text) : cutAtChar? c text = none := by
  induction text with
  | nil => rfl
  | cons b text ih =>
      simp only [List.mem_cons, not_or] at h
      simp [cutAtChar?, Ne.symm h.1, ih h.2]

theorem fst_cutAtChar? (mark : Char) (text : List Char) :
    ((cutAtChar? mark text).map Prod.fst).getD text = beforeChar mark text := by
  induction text with
  | nil => rfl
  | cons c text ih =>
      by_cases here : c = mark
      · simp [cutAtChar?, beforeChar, here]
      · rw [beforeChar, List.takeWhile_cons_of_pos (by simpa using here), ← beforeChar, ← ih, cutAtChar?, if_neg here]
        cases cutAtChar? mark text <;> rfl

theorem eq_of_cutAtChar? {text before rest : List Char} (cut : cutAtChar? c text = some (before, rest)) :
    text = before ++ c :: rest := by
  by_cases absent : c ∈ text
  · obtain ⟨first, later, rfl, fresh⟩ := List.eq_append_cons_of_mem absent
    rw [cutAtChar?_append fresh] at cut
    obtain ⟨rfl, rfl⟩ := Prod.mk.inj (Option.some.inj cut)
    rfl
  · rw [cutAtChar?_eq_none absent] at cut
    cases cut

theorem not_mem_of_cutAtChar? {text before rest : List Char} (cut : cutAtChar? c text = some (before, rest)) :
    c ∉ before := by
  have first := fst_cutAtChar? c text
  rw [cut] at first
  rw [show before = beforeChar c text from first]
  intro mem
  simpa using List.mem_takeWhile_imp mem

/-! ## Parts between marks -/

theorem eq_false_of_mem_splitOnP {p : Char → Bool} {part : List Char} (mem : part ∈ t.splitOnP p) :
    ∀ c ∈ part, p c = false := by
  induction t generalizing part with
  | nil =>
      rw [List.splitOnP_nil, List.mem_singleton] at mem
      simp [mem]
  | cons a t ih =>
      obtain ⟨first, rest, parted⟩ := List.exists_cons_of_ne_nil (List.splitOnP_ne_nil p t)
      rw [List.splitOnP_cons_eq_if_modifyHead] at mem
      split at mem
      case isTrue =>
        rcases List.mem_cons.mp mem with rfl | later
        · simp
        · exact ih later
      case isFalse solid =>
        rw [parted, List.modifyHead_cons] at mem
        rw [parted] at ih
        rcases List.mem_cons.mp mem with rfl | later
        · intro c hc
          rcases List.mem_cons.mp hc with rfl | hc
          · simpa using solid
          · exact ih List.mem_cons_self c hc
        · exact ih (List.mem_cons_of_mem first later)

theorem not_mem_of_mem_splitOn {part : List Char} (mem : part ∈ t.splitOn c) : c ∉ part := by
  intro inside
  rw [List.splitOn_eq_splitOnP] at mem
  simpa using eq_false_of_mem_splitOnP mem c inside

/-! ## Marks across a seam -/

theorem prefix_append_seam (alone : c ∉ m) (seam : ∀ x ∈ t.head?, x = c) (some : s ≠ [])
    (h : c :: m <+: s ++ t) : c :: m <+: s := by
  rcases List.prefix_or_prefix_of_prefix h (List.prefix_append s t) with inside | across
  · exact inside
  · obtain ⟨y, made⟩ := across
    obtain ⟨z, rest⟩ := h
    cases y with
    | nil =>
        rw [List.append_nil] at made
        exact made ▸ List.prefix_rfl
    | cons x y =>
        -- the mark goes on into the second text, and so holds the character that this starts with
        rw [← made, List.append_assoc, List.append_cancel_left_eq] at rest
        have start : x = c := seam x (by rw [← rest]; rfl)
        cases s with
        | nil => exact absurd rfl some
        | cons a s =>
            obtain ⟨-, rfl⟩ := List.cons.inj made
            exact absurd (by simp [start]) alone

theorem infix_append_seam (alone : c ∉ m) (seam : ∀ x ∈ t.head?, x = c) (h : c :: m <:+: s ++ t) :
    c :: m <:+: s ∨ c :: m <:+: t := by
  induction s with
  | nil => exact .inr h
  | cons a s ih =>
      rcases List.infix_cons_iff.mp h with start | later
      · exact .inl (prefix_append_seam alone seam (List.cons_ne_nil a s) start).isInfix
      · exact (ih later).imp_left List.infix_cons

theorem infix_of_append (absent : c ∉ s) (h : c :: m <:+: s ++ t) : c :: m <:+: t := by
  induction s with
  | nil => exact h
  | cons a s ih =>
      simp only [List.mem_cons, not_or] at absent
      rcases List.infix_cons_iff.mp h with start | later
      · exact absurd (List.cons_prefix_cons.mp start).1 absent.1
      · exact ih absent.2 later

/-! ## Cutting at a mark -/

theorem cutAt?_eq_none (some : mark ≠ []) (h : ¬ mark <:+: t) : cutAt? mark t = none := by
  induction t with
  | nil => rw [cutAt?, if_neg some]
  | cons a t ih =>
      rw [List.infix_cons_iff, not_or] at h
      rw [cutAt?, after?_eq_none_iff.mpr h.1, ih h.2, Option.map_none]

theorem cutAt?_append {before : List Char} (alone : c ∉ m) (h : ¬ c :: m <:+: before) (after : List Char) :
    cutAt? (c :: m) (before ++ (c :: m ++ after)) = some (before, after) := by
  induction before with
  | nil =>
      rw [List.nil_append, List.cons_append, cutAt?, ← List.cons_append, after?_append]
  | cons b before ih =>
      rw [List.infix_cons_iff, not_or] at h
      have here : ¬ c :: m <+: (b :: before) ++ (c :: m ++ after) := fun start =>
        h.1 (prefix_append_seam alone (by simp) (List.cons_ne_nil b before) start)
      rw [List.cons_append, cutAt?, ← List.cons_append, after?_eq_none_iff.mpr here, ih h.2, Option.map_some]

end SvgForm.Text
