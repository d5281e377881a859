/-! # Segments of a rule

A generation rule is static text with directives in parentheses. A directive ends where its parenthesis
closes; a parenthesis that never closes, with everything after it, is static text.
-/

namespace SvgForm.Rule

inductive Segment
  | static (text : List Char)
  | directive (content : List Char)
  deriving DecidableEq

/-- The text up to the parenthesis that closes the innermost of `depth + 1` open ones of the start, and
what follows. -/
def closing? (depth : Nat) : List Char → Option (List Char × List Char)
  | [] => none
  | c :: text =>
    if c = ')' ∧ depth = 0 then some ([], text)
    else
      let inner := if c = '(' then depth + 1 else if c = ')' then depth - 1 else depth
      (closing? inner text).map fun (content, rest) => (c :: content, rest)

theorem closing?_length {depth : Nat} {text content rest : List Char}
    (h : closing? depth text = some (content, rest)) : rest.length < text.length := by
  induction text generalizing depth content with
  | nil => simp [closing?] at h
  | cons c text ih =>
    simp only [closing?] at h
    split at h
    · simp only [Option.some.injEq, Prod.mk.injEq] at h
      simp [h.2]
    · obtain ⟨⟨content', rest'⟩, hr, he⟩ := Option.map_eq_some_iff.1 h
      simp only [Prod.mk.injEq] at he
      have := ih (he.2 ▸ hr)
      simp only [List.length_cons]; omega

/-- A row of segments with a character put before it. -/
def putBefore (c : Char) : List Segment → List Segment
  | .static text :: rest => .static (c :: text) :: rest
  | segments => .static [c] :: segments

/-- The segments of a rule. -/
def segments (rule : List Char) : List Segment :=
  match rule with
  | [] => []
  | c :: rest =>
    if c = '(' then
      match _h : closing? 0 rest with
      | some (content, after) => .directive content :: segments after
      | none => [.static (c :: rest)]
    else putBefore c (segments rest)
termination_by rule.length
decreasing_by
  · have := closing?_length _h
    simp only [List.length_cons]; omega
  · simp

end SvgForm.Rule
