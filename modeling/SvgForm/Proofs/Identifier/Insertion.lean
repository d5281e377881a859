import SvgForm.Proofs.Identifier.Token
/-! # Rules inside identifiers

A generation rule may stand anywhere after the base of an identifier, before a reserved extension or at the end.
It is read as it is written, and all else is read as if the rule were not there.
-/

namespace SvgForm.Identifier

variable {base text s t : List Char}

/-! ## What a rule leaves alone -/

theorem addToken_rule (i : Identifier) (rule : Option String) (t : List Char) :
    addToken { i with generationRule := rule } t = { addToken i t with generationRule := rule } := by
  unfold addToken
  repeat' split
  all_goals rfl

theorem foldl_addToken_rule (i : Identifier) (rule : Option String) (ts : List (List Char)) :
    ts.foldl addToken { i with generationRule := rule } =
      { ts.foldl addToken i with generationRule := rule } := by
  induction ts generalizing i with
  | nil => rfl
  | cons t ts ih => rw [List.foldl_cons, addToken_rule, ih, List.foldl_cons]

/-- What a base says with the text after it, out of which any rule is cut. -/
def ruleless (base text : List Char) : Identifier :=
  let (link, rest) := cutSpan "link_".toList text
  let tokens := splitTokens rest
  tokens.foldl addToken
    { base := .ofList base, tokens := tokens.map .ofList, trackingLink := link.map .ofList }

/-- Whether a text is empty or begins with a point. -/
def Pointed (text : List Char) : Prop :=
  text = [] ∨ ['.'] <+: text

theorem Pointed.append (hs : Pointed s) (ht : Pointed t) : Pointed (s ++ t) := by
  rcases hs with rfl | start
  · exact ht
  · exact .inr (start.trans (List.prefix_append s t))

theorem Pointed.head? (h : Pointed t) : ∀ x ∈ t.head?, x = '.' := by
  rcases h with rfl | ⟨rest, rfl⟩
  · simp
  · simp

/-- An identifier is read by cutting the rule out of what follows the base, be it nothing or a point only. -/
theorem parse_append (undotted : '.' ∉ base) (pointed : Pointed text) :
    parse (.ofList (base ++ text)) =
      { ruleless base (cutSpan "gen_".toList text).2 with
        generationRule := (cutSpan "gen_".toList text).1.map .ofList } := by
  rcases pointed with rfl | ⟨rest, rfl⟩
  · rw [List.append_nil, parse, String.toList_ofList, Text.cutAtChar?_eq_none undotted]
    rfl
  · have parted := Text.cutAtChar?_append undotted rest
    cases rest with
    | nil =>
        rw [parse, String.toList_ofList, List.append_nil, parted]
        rfl
    | cons c rest =>
        rw [parse, String.toList_ofList, List.singleton_append, parted, ruleless, ← foldl_addToken_rule]

/-! ## Inserting a rule -/

theorem startsExtension_iff : startsExtension (reservedExtensions.map (·.toList)) text = true ↔
    ∃ name ∈ reservedExtensions, ("." ++ name).toList <+: text := by
  simp [startsExtension, Text.startsWith_iff]

theorem pointed_of_extension (ends : ∃ name ∈ reservedExtensions, ("." ++ name).toList <+: text) :
    Pointed text := by
  obtain ⟨name, -, start⟩ := ends
  rw [String.toList_append] at start
  exact .inr ((List.prefix_append _ _).trans start)

/-- A rule is read as it is written, and the identifier says otherwise what it says without the rule. -/
theorem parse_insert_rule {base before rule after : String} (undotted : '.' ∉ base.toList)
    (starts : before = "" ∨ ".".toList <+: before.toList)
    (ends : after = "" ∨ ∃ name ∈ reservedExtensions, ("." ++ name).toList <+: after.toList)
    (noRule : ¬ ".gen_".toList <:+: before.toList) (noRule' : ¬ ".gen_".toList <:+: after.toList)
    (free : Unreserved rule.toList) :
    parse (base ++ before ++ ".gen_" ++ rule ++ after) =
      { parse (base ++ before ++ after) with generationRule := some rule } := by
  have first : Pointed before.toList := by simpa [Pointed] using starts
  have last : Pointed after.toList := ends.elim (fun none => .inl (by simp [none])) pointed_of_extension
  have spelled : Pointed (".gen_".toList ++ (rule.toList ++ after.toList)) := .inr (by simp)
  have cut : cutSpan "gen_".toList (before.toList ++ (".gen_".toList ++ (rule.toList ++ after.toList))) =
      (some rule.toList, before.toList ++ after.toList) :=
    cutSpan_append (by decide) noRule free (ends.imp (by simp +contextual) startsExtension_iff.mpr)
  -- no rule begins before the seam and ends after it
  have uncut : cutSpan "gen_".toList (before.toList ++ after.toList) = (none, before.toList ++ after.toList) := by
    apply cutSpan_none
    intro found
    exact (Text.infix_append_seam (by decide) last.head? found).elim noRule noRule'
  have whole : base ++ before ++ ".gen_" ++ rule ++ after =
      .ofList (base.toList ++ (before.toList ++ (".gen_".toList ++ (rule.toList ++ after.toList)))) := by
    apply String.toList_inj.mp
    simp
  have bare : base ++ before ++ after = .ofList (base.toList ++ (before.toList ++ after.toList)) := by
    apply String.toList_inj.mp
    simp
  rw [whole, bare, parse_append undotted (first.append spelled), parse_append undotted (first.append last), cut,
    uncut]
  simp

/-- A rule with points and open brackets, between a link that has open brackets too and further tokens. -/
theorem parse_insert_digits :
    let before := ".text.link_https://a.org/text(x[y"
    let rule := "A.(rn[5]).["
    let after := ".max_7.mode[auto].track_ref"
    parse ("Code" ++ before ++ ".gen_" ++ rule ++ after) =
        { parse ("Code" ++ before ++ after) with generationRule := some rule } ∧
      (parse ("Code" ++ before ++ after)).trackingLink = some "https://a.org/text(x[y" ∧
      (parse ("Code" ++ before ++ after)).tokens = ["text", "max_7", "mode[auto]", "track_ref"] := by
  refine ⟨parse_insert_rule ?_ ?_ ?_ ?_ ?_ ?_, ?_, ?_⟩
  all_goals decide +kernel

end SvgForm.Identifier
