import SvgForm.Proofs.Rule.Concatenation
import SvgForm.Proofs.Text.Cut
import SvgForm.Proofs.Text.Digit
import SvgForm.Proofs.Text.Trim
/-! # Two ways to pad

A value is padded on its right by a specification of a text and a width. A rule of the value and a directive that fills
with the same text makes the same value of that width, whatever else the text looks like.
-/

namespace SvgForm.Rule

open Text (natDigits)

variable {known : KnownValues} {d : Draws} {n : Nat} {value fill : List Char}

/-! ## Directives that pad -/

theorem Balanced.append_plain {text last : List Char} (balanced : Balanced text) (opens : '(' ∉ last)
    (closes : ')' ∉ last) : Balanced (text ++ last) where
  matching := by
    intro s start
    rcases List.prefix_or_prefix_of_prefix start (List.prefix_append text last) with inside | ⟨more, rfl⟩
    · exact balanced.matching s inside
    · have later := ((List.prefix_append_right_inj text).mp start).subset
      have none : more.count ')' = 0 := List.count_eq_zero_of_not_mem fun mem => closes (later mem)
      rw [List.count_append, List.count_append, none, balanced.closed]
      exact Nat.le_add_right _ _
  closed := by
    rw [List.count_append, List.count_append, balanced.closed, List.count_eq_zero_of_not_mem opens,
      List.count_eq_zero_of_not_mem closes]

/-- The number is the one in the last brackets, whatever brackets and numbers stand before it. -/
theorem counted?_natDigits (word : List Char) (n : Nat) :
    counted? (word ++ '[' :: (natDigits n ++ [']'])) = some (word, n) := by
  have last : word ++ '[' :: (natDigits n ++ [']']) = (word ++ '[' :: natDigits n) ++ [']'] := by simp
  have backwards : (word ++ '[' :: natDigits n).reverse = (natDigits n).reverse ++ '[' :: word.reverse := by simp
  have digits : '[' ∉ (natDigits n).reverse := by simpa using Text.not_mem_natDigits (by decide)
  rw [counted?, last, Text.dropNewlineAtEnd_concat (by decide), Text.before?_append]
  simp [backwards, Text.cutAtChar?_append digits, Text.readNat?_natDigits]

/-- A specification pads with its text up to its width. -/
theorem padRight_of_counted {content : List Char} (found : counted? content = some (fill, n)) (filled : fill ≠ [])
    (value : List Char) :
    padRight value ('(' :: (content ++ [')'])) = value ++ Text.cycled fill (n - value.length) := by
  have trimmed : Text.trim ('(' :: (content ++ [')'])) = '(' :: (content ++ [')']) := by
    apply Text.trim_of_solid_ends
    · intro c first
      obtain rfl := Option.some.inj first
      decide
    · intro c last
      have same : ')' = c := by simpa [List.getLast?_cons] using last
      subst same
      decide
  have opened : Text.after? ['('] ('(' :: (content ++ [')'])) = some (content ++ [')']) :=
    Text.after?_append ['('] _
  rw [padRight, trimmed]
  simp only [opened, Text.before?_append, Option.getD_some, found]
  cases fill with
  | nil => exact absurd rfl filled
  | cons c fill => rfl

/-! ## A value and a fill directive -/

theorem join_putBefore (missing : Nat) (padded : Bool) (c : Char) (row : List Segment) (d : Draws) :
    join missing (pieces known padded (putBefore c row) d).1 = c :: join missing (pieces known padded row d).1 := by
  cases row with
  | nil => rfl
  | cons s row => cases s <;> rfl

/-- Static text stands in the value as it is, also where it meets other static text. -/
theorem join_foldr_putBefore (missing : Nat) (padded : Bool) (text : List Char) (row : List Segment) (d : Draws) :
    join missing (pieces known padded (text.foldr putBefore row) d).1 =
      text ++ join missing (pieces known padded row d).1 := by
  induction text with
  | nil => rfl
  | cons c text ih => rw [List.foldr_cons, join_putBefore, ih, List.cons_append]

/-- A fill directive after a value without directives pads it up to the wanted length. -/
theorem generate_fill (plain : '(' ∉ value) (filled : fill ≠ []) (balanced : Balanced fill)
    (wide : value.length ≤ n) (known : KnownValues) (d : Draws) :
    generate (value ++ '(' :: (fill ++ "[fill])".toList)) known (some n) d =
      (value ++ Text.cycled fill (n - value.length), d) := by
  have parted : segments (value ++ '(' :: (fill ++ "[fill])".toList)) =
      fuse (.static value) [.directive (fill ++ "[fill]".toList)] := by
    have closed : '(' :: (fill ++ "[fill])".toList) = '(' :: ((fill ++ "[fill]".toList) ++ ')' :: []) := by simp
    rw [segments_static plain, closed, segments_directive (balanced.append_plain (by decide) (by decide)),
      segments_nil, fuse]
  have fills : (Segment.directive (fill ++ "[fill]".toList)).fill? = some fill := by
    have marked : Segment.Fills (.directive (fill ++ "[fill]".toList ++ [])) fill :=
      .text filled List.mem_cons_self
    rw [List.append_nil] at marked
    exact Segment.fills_iff.mp marked
  have spoken : sayAll known (segments (value ++ '(' :: (fill ++ "[fill])".toList))) d = (value, d) := by
    rw [parted, sayAll_fuse, sayAll_cons, Segment.say, sayAll_cons, Segment.say_of_fill fills]
    simp [sayAll]
  have padded : join (n - value.length)
        (pieces known true (segments (value ++ '(' :: (fill ++ "[fill])".toList))) d).1 =
      value ++ Text.cycled fill (n - value.length) := by
    rw [parted, fuse, join_foldr_putBefore, pieces_of_fill fills]
    simp [pieces, join]
  have length := (Text.cycles_cycled filled (n - value.length)).length
  rw [generate_some, spoken, padded, List.take_of_length_le]
  rw [List.length_append, length]
  omega

/-- A value is padded alike by a specification and by a fill directive of the same text. -/
theorem padRight_eq_generate (plain : '(' ∉ value) (filled : fill ≠ []) (balanced : Balanced fill)
    (wide : value.length ≤ n) (known : KnownValues) (d : Draws) :
    (padRight value ('(' :: (fill ++ '[' :: (natDigits n ++ "])".toList))), d) =
      generate (value ++ '(' :: (fill ++ "[fill])".toList)) known (some n) d := by
  have closed : '(' :: (fill ++ '[' :: (natDigits n ++ "])".toList)) =
      '(' :: ((fill ++ '[' :: (natDigits n ++ [']'])) ++ [')']) := by simp
  rw [closed, padRight_of_counted (counted?_natDigits fill n) filled, generate_fill plain filled balanced wide]

/-- The text holds parentheses, a number in brackets and a newline, and is the id of a field too. -/
theorem brackets_padded :
    let value := "7)[".toList
    let fill := "(a)[3]\n".toList
    let known : KnownValues := [("(a)[3]\n", .text "x")]
    let d := Draws.cycling [4]
    '(' ∉ value ∧ fill ≠ [] ∧ Balanced fill ∧ value.length ≤ 12 ∧
      padRight value "((a)[3]\n[12])".toList = "7)[(a)[3]\n(a".toList ∧
      (padRight value "((a)[3]\n[12])".toList, d) = generate "7)[((a)[3]\n[fill])".toList known (some 12) d := by
  intro value fill known d
  have balanced : Balanced fill :=
    (closing?_zero_eq_some_iff.mp (by decide : closing? 0 (fill ++ [')']) = some (fill, []))).2
  have plain : '(' ∉ value := by decide
  have wide : value.length ≤ 12 := by decide
  exact ⟨plain, List.cons_ne_nil _ _, balanced, wide, by decide,
    padRight_eq_generate plain (List.cons_ne_nil _ _) balanced wide known d⟩

end SvgForm.Rule
