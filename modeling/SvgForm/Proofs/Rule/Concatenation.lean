import SvgForm.Proofs.Rule.Bounded
import SvgForm.Proofs.Rule.Segments
/-! # Rules one after another

Two rules written one after the other make the value of the first and then that of the second, which goes on
with the draws that the first left. All it takes is that the first leaves no directive open.
-/

namespace SvgForm.Rule

variable {known : KnownValues} {depth : Nat} {c : Char} {content text first rule : List Char}

/-! ## Closed rules -/

/-- Whether every parenthesis that starts a directive is closed. One starts a directive where none is open. -/
def Closed (rule : List Char) : Prop :=
  ∀ before after, rule = before ++ '(' :: after → before.foldl nested 0 = 0 →
    ∃ content rest, after = content ++ ')' :: rest ∧ Balanced content

theorem Matching.mono {more : Nat} (h : Matching depth text) (le : depth ≤ more) : Matching more text := by
  intro s start
  have within := h s start
  omega

theorem nested_zero (plain : c ≠ '(') : nested 0 c = 0 := by
  simp [nested, plain]

/-- After a directive as much is open as before it. -/
theorem foldl_nested_directive (balanced : Balanced content) (rest : List Char) :
    ('(' :: (content ++ ')' :: rest)).foldl nested 0 = rest.foldl nested 0 := by
  obtain ⟨within, closed⟩ := balanced_iff.mp balanced
  have outside := within.foldl_nested
  have inside := (within.mono (Nat.zero_le 1)).foldl_nested
  have one : content.foldl nested 1 = 1 := by omega
  simp [nested, one]

theorem Closed.of_directive (h : Closed ('(' :: (content ++ ')' :: text))) (balanced : Balanced content) :
    Closed text := by
  intro before after split none
  apply h ('(' :: (content ++ ')' :: before)) after
  · simp [split]
  · rw [foldl_nested_directive balanced, none]

theorem Closed.of_plain (h : Closed (c :: text)) (plain : c ≠ '(') : Closed text := by
  intro before after split none
  apply h (c :: before) after
  · simp [split]
  · rw [List.foldl_cons, nested_zero plain, none]

theorem not_closed_of_unclosed (never : Unclosed ('(' :: text)) : ¬ Closed ('(' :: text) := by
  intro h
  obtain ⟨content, rest, rfl, balanced⟩ := h [] text rfl rfl
  have within := never ('(' :: (content ++ [')'])) (by simp) (by simp)
  have closed := balanced.closed
  simp at within
  omega

/-- A rule is closed if no parenthesis is open at its end. -/
theorem closed_iff : Closed rule ↔ rule.foldl nested 0 = 0 := by
  constructor
  · intro h
    induction rule using rule_induction with
    | nil => rfl
    | plain c rest other ih => rw [List.foldl_cons, nested_zero other, ih (h.of_plain other)]
    | directive content rest balanced ih => rw [foldl_nested_directive balanced, ih (h.of_directive balanced)]
    | unclosed rest never => exact absurd h (not_closed_of_unclosed never)
  · intro closed before after split none
    subst split
    have opened : after.foldl nested 1 = 0 := by simpa [none, nested] using closed
    cases found : closing? 0 after with
    | some parts => exact ⟨parts.1, parts.2, closing?_zero_eq_some_iff.mp found⟩
    | none =>
        -- one parenthesis more is opened than are closed
        have within := closing?_eq_none_iff.mp found
        have whole := within after List.prefix_rfl
        have depth := (within.mono (Nat.zero_le 1)).foldl_nested
        omega

instance (rule : List Char) : Decidable (Closed rule) :=
  decidable_of_iff _ closed_iff.symm

/-! ## Segments of both -/

/-- A row with a segment put before it. Static texts that meet are one. -/
def fuse : Segment → List Segment → List Segment
  | .static text, row => text.foldr putBefore row
  | .directive content, row => .directive content :: row

theorem foldr_fuse_putBefore (c : Char) (row more : List Segment) :
    (putBefore c row).foldr fuse more = putBefore c (row.foldr fuse more) := by
  cases row with
  | nil => rfl
  | cons s row => cases s <;> rfl

/-- The first rule has its segments whatever comes after it. -/
theorem segments_append (closed : Closed first) (rest : List Char) :
    segments (first ++ rest) = (segments first).foldr fuse (segments rest) := by
  induction first using rule_induction with
  | nil => rw [segments_nil, List.nil_append, List.foldr_nil]
  | plain c text other ih =>
      rw [List.cons_append, segments_plain other, ih (closed.of_plain other), segments_plain other,
        foldr_fuse_putBefore]
  | directive content after balanced ih =>
      have both : '(' :: (content ++ ')' :: after) ++ rest = '(' :: (content ++ ')' :: (after ++ rest)) := by simp
      rw [both, segments_directive balanced, segments_directive balanced, ih (closed.of_directive balanced)]
      rfl
  | unclosed text never => exact absurd closed (not_closed_of_unclosed never)

/-! ## What both say -/

theorem sayAll_putBefore (c : Char) (row : List Segment) (d : Draws) :
    sayAll known (putBefore c row) d = (c :: (sayAll known row d).1, (sayAll known row d).2) := by
  cases row with
  | nil => rfl
  | cons s row => cases s <;> rfl

theorem sayAll_fuse (s : Segment) (row : List Segment) (d : Draws) :
    sayAll known (fuse s row) d = sayAll known (s :: row) d := by
  cases s with
  | directive content => rfl
  | static text =>
      rw [sayAll_cons, fuse, Segment.say]
      induction text with
      | nil => rfl
      | cons c text ih => rw [List.foldr_cons, sayAll_putBefore, ih, List.cons_append]

theorem sayAll_foldr_fuse (row more : List Segment) (d : Draws) :
    sayAll known (row.foldr fuse more) d = sayAll known (row ++ more) d := by
  induction row generalizing d with
  | nil => rfl
  | cons s row ih => rw [List.foldr_cons, sayAll_fuse, sayAll_cons, ih, List.cons_append, sayAll_cons]

/-- The value of two rules is that of the first, followed by the one that the second makes with the draws that
are left. -/
theorem generate_append (closed : Closed first) (rest : List Char) (known : KnownValues) (d : Draws) :
    generate (first ++ rest) known none d =
      ((generate first known none d).1 ++ (generate rest known none (generate first known none d).2).1,
        (generate rest known none (generate first known none d).2).2) := by
  simp only [generate_none]
  rw [segments_append closed, sayAll_foldr_fuse, sayAll_append]

/-- Static texts meet between the two, the first closes a parenthesis too many, and the second leaves one open. -/
theorem digits_append :
    let first := "A(rn[2])b)".toList
    let rest := "c(ru[1])(<[fill])(x".toList
    let d := Draws.cycling [4, 7, 25]
    Closed first ∧ (generate first [] none d).1 = "A47b)".toList ∧
      (generate rest [] none (generate first [] none d).2).1 = "cZ(x".toList ∧
      generate (first ++ rest) [] none d =
        ((generate first [] none d).1 ++ (generate rest [] none (generate first [] none d).2).1,
          (generate rest [] none (generate first [] none d).2).2) := by
  intro first rest d
  have closed : Closed first := by decide
  exact ⟨closed, by decide +kernel, by decide +kernel, generate_append closed rest [] d⟩

end SvgForm.Rule
