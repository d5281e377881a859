import Mathlib.Data.List.Chain
import Mathlib.Data.List.Infix
import SvgForm.Rule.Segment
/-! # What the segments of a rule are

Written as they stand in the rule, the segments one after another are the rule. What a directive holds closes
all its parentheses, static text is parted by directives only, and where it holds a parenthesis, that one never
closes and nothing follows. Only one row of segments is like that.
-/

namespace SvgForm.Rule

variable {depth : Nat} {c : Char} {s : Segment} {text content rest rule : List Char} {row : List Segment}

/-! ## Parentheses -/

/-- Whether parentheses match and all of them are closed. -/
structure Balanced (text : List Char) : Prop where
  matching : ∀ s, s <+: text → s.count ')' ≤ s.count '('
  closed : text.count ')' = text.count '('

/-- Whether a text begins with a parenthesis that never closes. -/
def Unclosed (text : List Char) : Prop :=
  ∀ s, s <+: text → s ≠ [] → s.count ')' < s.count '('

/-- Whether nowhere more parentheses are closed than `depth` and those opened before. -/
def Matching (depth : Nat) (text : List Char) : Prop :=
  ∀ s, s <+: text → s.count ')' ≤ depth + s.count '('

/-- How many parentheses are open after a character. One that closes none of them does not count. -/
def nested (depth : Nat) (c : Char) : Nat :=
  if c = '(' then depth + 1 else if c = ')' then depth - 1 else depth

theorem unclosed_iff : Unclosed ('(' :: text) ↔ Matching 0 text := by
  constructor
  · intro h s start
    have more := h ('(' :: s) (List.cons_prefix_cons.mpr ⟨rfl, start⟩) (List.cons_ne_nil _ _)
    simp at more
    omega
  · intro h s start some
    cases s with
    | nil => exact absurd rfl some
    | cons b s =>
        obtain ⟨rfl, later⟩ := List.cons_prefix_cons.mp start
        have within := h s later
        simp
        omega

theorem matching_nil (depth : Nat) : Matching depth [] := by
  intro s start
  simp [List.prefix_nil.mp start]

/-- A text matches if its first character closes nothing that is not open, and the others match after it. -/
theorem matching_cons :
    Matching depth (c :: text) ↔ ¬ (c = ')' ∧ depth = 0) ∧ Matching (nested depth c) text := by
  constructor
  · intro h
    have first := h [c] (List.cons_prefix_cons.mpr ⟨rfl, List.nil_prefix⟩)
    refine ⟨?_, fun s start => ?_⟩
    · rintro ⟨rfl, rfl⟩
      simp at first
    · have more := h (c :: s) (List.cons_prefix_cons.mpr ⟨rfl, start⟩)
      simp only [List.count_cons, List.count_nil, nested] at first more ⊢
      grind
  · rintro ⟨opened, h⟩ s start
    cases s with
    | nil => simp
    | cons b s =>
        obtain ⟨rfl, later⟩ := List.cons_prefix_cons.mp start
        have more := h s later
        simp only [List.count_cons, nested] at more ⊢
        grind

/-- The parentheses that are open after a text were open before or are opened in it, less those closed. -/
theorem Matching.foldl_nested (h : Matching depth text) :
    text.foldl nested depth + text.count ')' = depth + text.count '(' := by
  induction text generalizing depth with
  | nil => rfl
  | cons c text ih =>
      obtain ⟨opened, later⟩ := matching_cons.mp h
      have rest := ih later
      simp only [List.foldl_cons, List.count_cons]
      unfold nested at rest ⊢
      grind

/-! ## The closing parenthesis -/

theorem closing?_cons (depth : Nat) (c : Char) (text : List Char) : closing? depth (c :: text) =
    if c = ')' ∧ depth = 0 then some ([], text)
    else (closing? (nested depth c) text).map fun parts => (c :: parts.1, parts.2) :=
  rfl

theorem closing?_append (h : Matching depth content) (closed : content.foldl nested depth = 0)
    (rest : List Char) : closing? depth (content ++ ')' :: rest) = some (content, rest) := by
  induction content generalizing depth with
  | nil =>
      rw [List.nil_append, closing?_cons, if_pos ⟨rfl, closed⟩]
  | cons c content ih =>
      obtain ⟨opened, later⟩ := matching_cons.mp h
      rw [List.cons_append, closing?_cons, if_neg opened, ih later closed, Option.map_some]

theorem closing?_eq_none_iff : closing? depth text = none ↔ Matching depth text := by
  induction text generalizing depth with
  | nil => simp [closing?, matching_nil]
  | cons c text ih =>
      rw [closing?_cons, matching_cons]
      split
      case isTrue ends => simp [ends]
      case isFalse opened => simp [opened, ih]

/-- What stands before the closing parenthesis matches and closes all that was open. -/
theorem closing?_spec (found : closing? depth text = some (content, rest)) :
    text = content ++ ')' :: rest ∧ Matching depth content ∧ content.foldl nested depth = 0 := by
  induction text generalizing depth content with
  | nil => simp [closing?] at found
  | cons c text ih =>
      rw [closing?_cons] at found
      split at found
      case isTrue ends =>
        obtain ⟨rfl, rfl⟩ := Prod.mk.inj (Option.some.inj found)
        exact ⟨by rw [ends.1]; rfl, matching_nil depth, ends.2⟩
      case isFalse opened =>
        obtain ⟨⟨content, rest⟩, inner, made⟩ := Option.map_eq_some_iff.mp found
        obtain ⟨rfl, rfl⟩ := Prod.mk.inj made
        obtain ⟨rfl, later, closed⟩ := ih inner
        exact ⟨rfl, matching_cons.mpr ⟨opened, later⟩, closed⟩

theorem balanced_iff : Balanced text ↔ Matching 0 text ∧ text.foldl nested 0 = 0 := by
  constructor
  · intro h
    have within : Matching 0 text := by simpa [Matching] using h.matching
    have depth := within.foldl_nested
    exact ⟨within, by have := h.closed; omega⟩
  · intro ⟨within, closed⟩
    have depth := within.foldl_nested
    exact ⟨by simpa [Matching] using within, by omega⟩

/-- A directive goes up to the first parenthesis before which all others are closed. -/
theorem closing?_zero_eq_some_iff :
    closing? 0 text = some (content, rest) ↔ text = content ++ ')' :: rest ∧ Balanced content := by
  rw [balanced_iff]
  constructor
  · exact closing?_spec
  · rintro ⟨rfl, within, closed⟩
    exact closing?_append within closed rest

theorem closing?_zero_eq_none_iff : closing? 0 text = none ↔ Unclosed ('(' :: text) := by
  rw [closing?_eq_none_iff, unclosed_iff]

/-! ## Segments of a rule -/

theorem segments_nil : segments [] = [] := by
  rw [segments]

theorem segments_plain (plain : c ≠ '(') (rest : List Char) :
    segments (c :: rest) = putBefore c (segments rest) := by
  rw [segments, if_neg plain]

theorem segments_directive (balanced : Balanced content) (rest : List Char) :
    segments ('(' :: (content ++ ')' :: rest)) = .directive content :: segments rest := by
  have found : closing? 0 (content ++ ')' :: rest) = some (content, rest) :=
    closing?_zero_eq_some_iff.mpr ⟨rfl, balanced⟩
  rw [segments, if_pos rfl]
  split
  case h_1 inner after same =>
    obtain ⟨rfl, rfl⟩ := Prod.mk.inj (Option.some.inj (same.symm.trans found))
    rfl
  case h_2 none => simp [none] at found

theorem segments_unclosed (never : Unclosed ('(' :: rest)) : segments ('(' :: rest) = [.static ('(' :: rest)] := by
  have none := closing?_zero_eq_none_iff.mpr never
  rw [segments, if_pos rfl]
  split
  case h_1 found => simp [none] at found
  case h_2 => rfl

theorem segments_static (plain : '(' ∉ text) (rest : List Char) :
    segments (text ++ rest) = text.foldr putBefore (segments rest) := by
  induction text with
  | nil => rfl
  | cons c text ih =>
      simp only [List.mem_cons, not_or] at plain
      rw [List.cons_append, segments_plain (Ne.symm plain.1), ih plain.2, List.foldr_cons]

/-- A rule is empty, begins with a plain character or a directive, or is static from its parenthesis on. -/
@[elab_as_elim]
theorem rule_induction {P : List Char → Prop} (nil : P [])
    (plain : ∀ c rest, c ≠ '(' → P rest → P (c :: rest))
    (directive : ∀ content rest, Balanced content → P rest → P ('(' :: (content ++ ')' :: rest)))
    (unclosed : ∀ rest, Unclosed ('(' :: rest) → P ('(' :: rest)) (rule : List Char) : P rule := by
  induction rule using segments.induct with
  | case1 => exact nil
  | case2 text content after found ih =>
      obtain ⟨rfl, balanced⟩ := closing?_zero_eq_some_iff.mp found
      exact directive content after balanced ih
  | case3 text none => exact unclosed text (closing?_zero_eq_none_iff.mp none)
  | case4 c text other ih => exact plain c text other ih

/-! ## Rows of segments -/

def Segment.isStatic : Segment → Bool
  | .static _ => true
  | .directive _ => false

/-- A segment as it stands in a rule. -/
def Segment.written : Segment → List Char
  | .static text => text
  | .directive content => '(' :: (content ++ [')'])

theorem foldr_putBefore_static (text more : List Char) (row : List Segment) :
    text.foldr putBefore (.static more :: row) = .static (text ++ more) :: row := by
  induction text with
  | nil => rfl
  | cons c text ih => simp [ih, putBefore]

theorem foldr_putBefore (some : text ≠ []) (apart : ∀ s ∈ row.head?, s.isStatic = false) :
    text.foldr putBefore row = .static text :: row := by
  obtain ⟨start, c, rfl⟩ := (List.eq_nil_or_concat' text).resolve_left some
  have last : putBefore c row = .static [c] :: row := by
    cases row with
    | nil => rfl
    | cons s row =>
        cases s with
        | static t => simp [Segment.isStatic] at apart
        | directive content => rfl
  simp [last, foldr_putBefore_static]

/-- What a row of segments is for a rule. -/
structure Parted (rule : List Char) (row : List Segment) : Prop where
  written : row.flatMap Segment.written = rule
  balanced : ∀ content, .directive content ∈ row → Balanced content
  nonempty : ∀ text, .static text ∈ row → text ≠ []
  apart : row.IsChain fun s t => ¬ (s.isStatic ∧ t.isStatic)
  /-- A parenthesis in static text never closes, and this text is the last. -/
  unclosed : ∀ before text after, row = before ++ .static text :: after → '(' ∈ text →
    after = [] ∧ ∃ start rest, text = start ++ '(' :: rest ∧ '(' ∉ start ∧ Unclosed ('(' :: rest)

namespace Parted

theorem nil : Parted [] [] where
  written := rfl
  balanced := by simp
  nonempty := by simp
  apart := .nil
  unclosed := by simp

theorem tail (h : Parted rule (s :: row)) : Parted (row.flatMap Segment.written) row where
  written := rfl
  balanced := fun content mem => h.balanced content (List.mem_cons_of_mem s mem)
  nonempty := fun text mem => h.nonempty text (List.mem_cons_of_mem s mem)
  apart := h.apart.tail
  unclosed := by
    intro before text after split
    exact h.unclosed (s :: before) text after (by rw [split]; rfl)

theorem directive (h : Parted rest row) (balanced : Balanced content) :
    Parted ('(' :: (content ++ ')' :: rest)) (.directive content :: row) where
  written := by simp [Segment.written, h.written]
  balanced := by simpa [balanced] using h.balanced
  nonempty := by simpa using h.nonempty
  apart := by
    cases row with
    | nil => exact .singleton _
    | cons s row => exact .cons_cons (by simp [Segment.isStatic]) h.apart
  unclosed := by
    intro before text after split
    cases before with
    | nil => simp at split
    | cons s before => exact h.unclosed before text after (List.cons.inj split).2

theorem plain (h : Parted rest row) (some : text ≠ []) (plain : '(' ∉ text)
    (apart : ∀ s ∈ row.head?, s.isStatic = false) : Parted (text ++ rest) (.static text :: row) where
  written := by simp [Segment.written, h.written]
  balanced := by simpa using h.balanced
  nonempty := by simpa [some] using h.nonempty
  apart := by
    cases row with
    | nil => exact .singleton _
    | cons s row => exact .cons_cons (by simpa [Segment.isStatic] using apart) h.apart
  unclosed := by
    intro before other after split mem
    cases before with
    | nil =>
        obtain ⟨same, -⟩ := List.cons.inj split
        obtain rfl := Segment.static.inj same
        exact absurd mem plain
    | cons s before => exact h.unclosed before other after (List.cons.inj split).2 mem

theorem last (start : List Char) (plain : '(' ∉ start) (never : Unclosed ('(' :: rest)) :
    Parted (start ++ '(' :: rest) [.static (start ++ '(' :: rest)] where
  written := by simp [Segment.written]
  balanced := by simp
  nonempty := by simp
  apart := .singleton _
  unclosed := by
    intro before text after split _
    cases before with
    | nil =>
        obtain ⟨same, none⟩ := List.cons.inj split
        obtain rfl := Segment.static.inj same
        exact ⟨none.symm, start, rest, rfl, plain, never⟩
    | cons s before => simp at split

/-- What follows a static text is a directive. -/
theorem head_isStatic (h : Parted rule (.static text :: row)) : ∀ s ∈ row.head?, s.isStatic = false := by
  cases row with
  | nil => simp
  | cons s row => simpa [Segment.isStatic] using h.apart.rel

/-- A character is put before the static text that a row begins with, or makes up a static text itself. -/
theorem putBefore (h : Parted rest row) (plain : c ≠ '(') : Parted (c :: rest) (putBefore c row) := by
  have alone : '(' ∉ [c] := by simpa using Ne.symm plain
  cases row with
  | nil => exact h.plain (List.cons_ne_nil c []) alone (by simp)
  | cons s row =>
      cases s with
      | directive content => exact h.plain (List.cons_ne_nil c []) alone (by simp [Segment.isStatic])
      | static text =>
          -- A text with a parenthesis is the last of its row, and stays so.
          by_cases mem : '(' ∈ text
          · obtain ⟨rfl, start, after, rfl, before, never⟩ := h.unclosed [] text row rfl mem
            obtain rfl : start ++ '(' :: after = rest := by simpa [Segment.written] using h.written
            exact last (c :: start) (by simp [Ne.symm plain, before]) never
          · obtain rfl : text ++ row.flatMap Segment.written = rest := h.written
            exact h.tail.plain (List.cons_ne_nil c text) (by simp [Ne.symm plain, mem]) h.head_isStatic

/-- There is one row for a rule. -/
theorem segments_eq (h : Parted rule row) : segments rule = row := by
  induction row generalizing rule with
  | nil =>
      obtain rfl : [] = rule := h.written
      exact segments_nil
  | cons s row ih =>
      have later := ih h.tail
      obtain rfl := h.written
      cases s with
      | directive content =>
          have balanced := h.balanced content List.mem_cons_self
          simp only [List.flatMap_cons, Segment.written, List.cons_append, List.append_assoc, List.nil_append]
          rw [segments_directive balanced, later]
      | static text =>
          simp only [List.flatMap_cons, Segment.written]
          -- The scan stops at a parenthesis in the text, or goes through all of it to the directive that follows.
          by_cases mem : '(' ∈ text
          · obtain ⟨rfl, start, after, rfl, plain, never⟩ := h.unclosed [] text row rfl mem
            simp [segments_static plain, segments_unclosed never, foldr_putBefore_static]
          · rw [segments_static mem, later, foldr_putBefore (h.nonempty text List.mem_cons_self) h.head_isStatic]

end Parted

theorem parted_segments (rule : List Char) : Parted rule (segments rule) := by
  induction rule using rule_induction with
  | nil =>
      rw [segments_nil]
      exact .nil
  | plain c rest other ih =>
      rw [segments_plain other]
      exact ih.putBefore other
  | directive content rest balanced ih =>
      rw [segments_directive balanced]
      exact ih.directive balanced
  | unclosed rest never =>
      rw [segments_unclosed never]
      exact .last [] List.not_mem_nil never

/-- A row of segments is that of a rule just if it is the rule parted as described. -/
theorem segments_eq_iff : segments rule = row ↔ Parted rule row := by
  constructor
  · rintro rfl
    exact parted_segments rule
  · exact Parted.segments_eq

example : segments "a(b(c))d)(e".toList = [.static ['a'], .directive "b(c)".toList, .static "d)(e".toList] := by
  decide +kernel

end SvgForm.Rule
