import SvgForm.Proofs.Identifier.Pieces
/-! # Tokens

The tokens that say something, as data. Each is read back from its text, and what a row of tokens says of an
attribute is what the one token says that sets it.
-/

namespace SvgForm.Identifier

inductive Attribute
  | kind | maxLength | minLength | generationMode | dependsOn | dateFormat | editable | hiddenWhen | trackingId
  | grayscale | trackingRole | selectValue
  deriving DecidableEq

inductive Token
  | kind (word : String) (named : Kind)
  | max (digits : String)
  | min (digits : String)
  | mode (value : String)
  | depends (reference : String)
  | dateFormat (format : String)
  | editableFalse
  | hideChecked
  | hideUnchecked
  | trackingId
  | grayscale
  | track (role : String)
  | select (value : String)

namespace Token

def text : Token → String
  | kind word _ => word
  | max digits => "max_" ++ digits
  | min digits => "min_" ++ digits
  | mode value => "mode[" ++ value ++ "]"
  | depends reference => "depends_" ++ reference
  | dateFormat format => "date_format[" ++ format ++ "]"
  | editableFalse => "editable_false"
  | hideChecked => "hide_checked"
  | hideUnchecked => "hide_unchecked"
  | trackingId => "tracking_id"
  | grayscale => "grayscale"
  | track role => "track_" ++ role
  | select value => "select_" ++ value

/-- The attribute that a token sets. -/
def sets : Token → Attribute
  | kind .. => .kind
  | max _ => .maxLength
  | min _ => .minLength
  | mode _ => .generationMode
  | depends _ => .dependsOn
  | dateFormat _ => .dateFormat
  | editableFalse => .editable
  | hideChecked | hideUnchecked => .hiddenWhen
  | trackingId => .trackingId
  | grayscale => .grayscale
  | track _ => .trackingRole
  | select _ => .selectValue

/-- Whether a token says something, by what stands in it. -/
def Proper : Token → Prop
  | kind word named => (word, named) ∈ kindTokens
  | max digits | min digits => digits ≠ "" ∧ digits.toList.all Text.isDigit
  | mode value => value ≠ "" ∧ ']' ∉ value.toList
  | depends value | dateFormat value | track value => value ≠ ""
  | editableFalse | hideChecked | hideUnchecked | trackingId | grayscale | select _ => True

instance : (t : Token) → Decidable t.Proper
  | kind word named => inferInstanceAs (Decidable ((word, named) ∈ kindTokens))
  | max digits | min digits => inferInstanceAs (Decidable (digits ≠ "" ∧ digits.toList.all Text.isDigit = true))
  | mode value => inferInstanceAs (Decidable (value ≠ "" ∧ ']' ∉ value.toList))
  | depends value | dateFormat value | track value => inferInstanceAs (Decidable (value ≠ ""))
  | editableFalse | hideChecked | hideUnchecked | trackingId | grayscale | select _ =>
    inferInstanceAs (Decidable True)

structure WellFormed (t : Token) : Prop where
  proper : t.Proper
  balanced : Balanced t.text.toList
  line : '\n' ∉ t.text.toList
  noRule : ¬ ".gen_".toList <:+: t.text.toList
  noLink : ¬ ".link_".toList <:+: t.text.toList

instance (t : Token) : Decidable t.WellFormed :=
  decidable_of_iff (t.Proper ∧ Balanced t.text.toList ∧ '\n' ∉ t.text.toList ∧
      ¬ ".gen_".toList <:+: t.text.toList ∧ ¬ ".link_".toList <:+: t.text.toList)
    ⟨fun ⟨proper, balanced, line, noRule, noLink⟩ => ⟨proper, balanced, line, noRule, noLink⟩,
      fun ⟨proper, balanced, line, noRule, noLink⟩ => ⟨proper, balanced, line, noRule, noLink⟩⟩

/-- What a token adds to an identifier. -/
def apply (i : Identifier) : Token → Identifier
  | kind _ named => { i with kind := i.kind.or (some named) }
  | max digits => { i with maxLength := some (Text.natOfDigits digits.toList) }
  | min digits => { i with minLength := some (Text.natOfDigits digits.toList) }
  | mode value => { i with generationMode := some value }
  | depends reference => { i with dependsOn := some reference }
  | dateFormat format => { i with dateFormat := some format, kind := i.kind.or (some .date) }
  | editableFalse => { i with editable := false }
  | hideChecked => { i with hiddenWhen := some "checked" }
  | hideUnchecked => { i with hiddenWhen := some "unchecked" }
  | trackingId => { i with trackingId := true }
  | grayscale => { i with grayscale := true }
  | track role => { i with trackingRole := some role }
  | select value => { i with selectValue := some value }

end Token

/-! ## Reading a token -/

theorem lookup_kindTokens {word : String} {named : Kind} (h : (word, named) ∈ kindTokens) :
    kindTokens.lookup word = some named :=
  (by decide : ∀ entry ∈ kindTokens, kindTokens.lookup entry.1 = some entry.2) _ h

/-- No kind has a name with an underscore or a bracket in it. -/
theorem lookup_kindTokens_eq_none {text : String} (h : '_' ∈ text.toList ∨ '[' ∈ text.toList) :
    kindTokens.lookup text = none := by
  rw [List.lookup_eq_none_iff]
  intro entry mem
  have plain := (by decide : ∀ entry ∈ kindTokens, '_' ∉ entry.1.toList ∧ '[' ∉ entry.1.toList) entry mem
  rw [bne_iff_ne]
  intro same
  rw [← same] at plain
  rcases h with underscore | bracket
  · exact plain.1 underscore
  · exact plain.2 bracket

theorem unlessEmpty_toList {value : String} (h : value ≠ "") : unlessEmpty value.toList = some value := by
  rw [unlessEmpty, if_neg (by simpa using h), String.ofList_toList]

theorem bound?_append {word : String} {digits : List Char} (some : digits ≠ [])
    (all : digits.all Text.isDigit = true) (line : '\n' ∉ digits) :
    bound? word (word.toList ++ digits) = .some (Text.natOfDigits digits) := by
  rw [bound?, Text.after?_append, Option.bind_some, Text.dropNewlineAtEnd_of_not_mem line, Text.readNat?,
    if_pos ⟨some, all⟩]

theorem bracketed?_append {word : String} {value : List Char} (line : '\n' ∉ value) :
    bracketed? word (word.toList ++ ['['] ++ (value ++ [']'])) = some value := by
  rw [bracketed?, Text.after?_append, Option.bind_some, Text.dropNewlineAtEnd_of_not_mem (by simpa using line),
    Text.before?_append]

namespace Token

variable {t : Token} {ts : List Token}

theorem text_ne_empty (h : t.Proper) : t.text ≠ "" := by
  cases t with
  | kind word named =>
      exact (by decide : ∀ entry ∈ kindTokens, entry.1 ≠ "") (word, named) h
  | _ => simp [text]

theorem mode?_text {value : String} (h : (mode value).WellFormed) :
    mode? (mode value).text.toList = some value.toList := by
  have line : '\n' ∉ value.toList := by simpa [text] using h.line
  have read : bracketed? "mode" (mode value).text.toList = some value.toList := by
    rw [text, String.toList_append, String.toList_append, List.append_assoc]
    exact bracketed?_append line
  simpa [mode?, read] using h.proper.2

theorem dateFormat?_text {format : String} (h : (dateFormat format).WellFormed) :
    dateFormat? (dateFormat format).text.toList = some format.toList := by
  have line : '\n' ∉ format.toList := by simpa [text] using h.line
  have read : bracketed? "date_format" (dateFormat format).text.toList = some format.toList := by
    rw [text, String.toList_append, String.toList_append, List.append_assoc]
    exact bracketed?_append line
  simpa [dateFormat?, read] using line

theorem addToken_select (i : Identifier) (value : String) :
    addToken i (select value).text.toList = apply i (select value) := by
  have written : apply i (select value) = { i with selectValue := some (.ofList value.toList) } := by
    rw [String.ofList_toList, apply]
  rw [addToken, String.ofList_toList, lookup_kindTokens_eq_none (by simp [text]), text, String.toList_append,
    written]
  rfl

/-- A token is read for what it is. -/
theorem addToken_text (h : t.WellFormed) (i : Identifier) : addToken i t.text.toList = t.apply i := by
  have proper := h.proper
  have line := h.line
  cases t with
  | kind word named =>
      rw [addToken, String.ofList_toList, text, lookup_kindTokens proper]
      rfl
  | max digits =>
      rw [addToken, String.ofList_toList, lookup_kindTokens_eq_none (by simp [text]), text,
        String.toList_append, bound?_append (by simpa using proper.1) proper.2 (by simpa [text] using line)]
      rfl
  | min digits =>
      rw [addToken, String.ofList_toList, lookup_kindTokens_eq_none (by simp [text]), text,
        String.toList_append, bound?_append (by simpa using proper.1) proper.2 (by simpa [text] using line)]
      rfl
  | mode value =>
      rw [addToken, String.ofList_toList, lookup_kindTokens_eq_none (by simp [text]), mode?_text h, text,
        String.toList_append, String.toList_append, apply, ← unlessEmpty_toList proper.1]
      rfl
  | depends reference =>
      rw [addToken, String.ofList_toList, lookup_kindTokens_eq_none (by simp [text]), apply,
        ← unlessEmpty_toList proper, text, String.toList_append]
      rfl
  | dateFormat format =>
      rw [addToken, String.ofList_toList, lookup_kindTokens_eq_none (by simp [text]), dateFormat?_text h, text,
        String.toList_append, String.toList_append, apply, ← unlessEmpty_toList proper]
      rfl
  | track role =>
      rw [addToken, String.ofList_toList, lookup_kindTokens_eq_none (by simp [text]), apply,
        ← unlessEmpty_toList proper, text, String.toList_append]
      rfl
  | select value => exact addToken_select i value
  | editableFalse | hideChecked | hideUnchecked | trackingId | grayscale => rfl

/-! ## Rows of tokens -/

/-- What says nothing. -/
def blank : Identifier where
  base := ""

/-- What an identifier says of an attribute is what the tokens of one form say, each the value it was made
with. -/
structure Reads {α β : Type} (said : Identifier → Option α) (make : β → Token) (value : β → α) : Prop where
  step : ∀ i t, said (apply i t) = (said (apply blank t)).or (said i)
  heard : ∀ t v, said (apply blank t) = some v ↔ ∃ b, make b = t ∧ value b = v
  alike : ∀ b c, (make b).sets = (make c).sets

namespace Reads

variable {α β : Type} {said : Identifier → Option α} {make : β → Token} {value : β → α} {i : Identifier} {v : α}

theorem foldl_silent (reads : Reads said make value) (silent : ∀ t ∈ ts, said (apply blank t) = none) :
    said (ts.foldl apply i) = said i := by
  induction ts generalizing i with
  | nil => rfl
  | cons t ts ih =>
      rw [List.foldl_cons, ih fun u mem => silent u (List.mem_cons_of_mem t mem), reads.step,
        silent t List.mem_cons_self, Option.none_or]

/-- Where no attribute is set twice, what a row of tokens says is what its one token of the form says. -/
theorem foldl_eq_some_iff (reads : Reads said make value) (once : (ts.map sets).Nodup) (start : said i = none) :
    said (ts.foldl apply i) = some v ↔ ∃ b, make b ∈ ts ∧ value b = v := by
  induction ts generalizing i with
  | nil => simp [start]
  | cons t ts ih =>
      rw [List.map_cons, List.nodup_cons] at once
      rw [List.foldl_cons]
      cases own : said (apply blank t) with
      | none =>
          rw [ih once.2 (by rw [reads.step, own, start, Option.none_or])]
          have other : ∀ b, make b ≠ t := by
            intro b same
            have heard := (reads.heard t (value b)).mpr ⟨b, same, rfl⟩
            rw [own] at heard
            cases heard
          simp [other]
      | some w =>
          obtain ⟨b, rfl, made⟩ := (reads.heard t w).mp own
          have alone : ∀ c, make c ∉ ts := by
            intro c mem
            apply once.1
            rw [reads.alike b c]
            exact List.mem_map_of_mem mem
          have silent : ∀ u ∈ ts, said (apply blank u) = none := by
            intro u mem
            by_contra speaks
            obtain ⟨w, heard⟩ := Option.ne_none_iff_exists'.mp speaks
            obtain ⟨c, rfl, -⟩ := (reads.heard u w).mp heard
            exact alone c mem
          rw [reads.foldl_silent silent, reads.step, own, Option.some_or, ← own, reads.heard]
          simp [alone]

end Reads

theorem reads_maxLength : Reads Identifier.maxLength max fun digits => Text.natOfDigits digits.toList where
  step := by intro i t; cases t <;> rfl
  heard := by intro t v; cases t <;> simp [apply, blank]
  alike := by intro b c; rfl

theorem reads_minLength : Reads Identifier.minLength min fun digits => Text.natOfDigits digits.toList where
  step := by intro i t; cases t <;> rfl
  heard := by intro t v; cases t <;> simp [apply, blank]
  alike := by intro b c; rfl

theorem reads_generationMode : Reads Identifier.generationMode mode id where
  step := by intro i t; cases t <;> rfl
  heard := by intro t v; cases t <;> simp [apply, blank]
  alike := by intro b c; rfl

theorem reads_dependsOn : Reads Identifier.dependsOn depends id where
  step := by intro i t; cases t <;> rfl
  heard := by intro t v; cases t <;> simp [apply, blank]
  alike := by intro b c; rfl

theorem reads_dateFormat : Reads Identifier.dateFormat dateFormat id where
  step := by intro i t; cases t <;> rfl
  heard := by intro t v; cases t <;> simp [apply, blank]
  alike := by intro b c; rfl

theorem reads_selectValue : Reads Identifier.selectValue select id where
  step := by intro i t; cases t <;> rfl
  heard := by intro t v; cases t <;> simp [apply, blank]
  alike := by intro b c; rfl

theorem reads_trackingRole : Reads Identifier.trackingRole track id where
  step := by intro i t; cases t <;> rfl
  heard := by intro t v; cases t <;> simp [apply, blank]
  alike := by intro b c; rfl

/-- The tokens that say when a field is hidden. -/
def hide : Bool → Token
  | true => hideChecked
  | false => hideUnchecked

theorem reads_hiddenWhen :
    Reads Identifier.hiddenWhen hide fun checked => if checked then "checked" else "unchecked" where
  step := by intro i t; cases t <;> rfl
  heard := by intro t v; cases t <;> simp [apply, blank, hide]
  alike := by intro b c; cases b <;> cases c <;> rfl

/-- A mark is set where its token is in the row. -/
theorem foldl_iff_mem (marked : Identifier → Prop) (t : Token)
    (step : ∀ i u, marked (apply i u) ↔ u = t ∨ marked i) (i : Identifier) :
    marked (ts.foldl apply i) ↔ t ∈ ts ∨ marked i := by
  induction ts generalizing i with
  | nil => simp
  | cons u ts ih =>
      rw [List.foldl_cons, ih, step, List.mem_cons]
      constructor
      · rintro (later | rfl | before)
        · exact .inl (.inr later)
        · exact .inl (.inl rfl)
        · exact .inr before
      · rintro ((rfl | later) | before)
        · exact .inr (.inl rfl)
        · exact .inl later
        · exact .inr (.inr before)

/-- The first kind that is named counts. -/
theorem kind_foldl (i : Identifier) (ts : List Token) :
    (ts.foldl apply i).kind = i.kind.or (ts.findSome? fun t => (apply blank t).kind) := by
  induction ts generalizing i with
  | nil => simp
  | cons t ts ih =>
      have step : (apply i t).kind = i.kind.or (apply blank t).kind := by
        cases t <;> simp [apply, blank]
      rw [List.foldl_cons, ih, step, List.findSome?_cons, Option.or_assoc]
      cases (apply blank t).kind <;> rfl

/-- The kind is that of the one word for a kind, which stands before any date format; without such a word a date
format makes it a date. -/
theorem findSome?_kind (once : (ts.map sets).Nodup)
    (ordered : ts.Pairwise fun t u => t.sets = .dateFormat → u.sets ≠ .kind) {k : Kind} :
    (ts.findSome? fun t => (apply blank t).kind) = some k ↔
      (∃ word, kind word k ∈ ts) ∨
        k = .date ∧ (∃ format, dateFormat format ∈ ts) ∧ ∀ word named, kind word named ∉ ts := by
  induction ts with
  | nil => simp
  | cons t ts ih =>
      rw [List.map_cons, List.nodup_cons] at once
      obtain ⟨before, rest⟩ := List.pairwise_cons.mp ordered
      rw [List.findSome?_cons]
      cases t with
      | kind word named =>
          have alone : ∀ other k, kind other k ∉ ts := by
            intro other k mem
            exact once.1 (List.mem_map.mpr ⟨_, mem, rfl⟩)
          simp [apply, blank, alone, eq_comm]
      | dateFormat format =>
          have alone : ∀ word k, kind word k ∉ ts := fun word k mem => before _ mem rfl rfl
          simp [apply, blank, alone, eq_comm]
      | _ => simpa [apply, blank] using ih once.2 rest

end Token

/-! ## Any tokens -/

/-- What a reading starts with and every token keeps holds of what is read. -/
theorem parse_induction {P : Identifier → Prop} (start : ∀ base tokens rule link,
      P { base, tokens, generationRule := rule, trackingLink := link })
    (step : ∀ i t, P i → P (addToken i t)) (identifier : String) : P (parse identifier) := by
  unfold parse
  split
  case h_1 => exact start _ _ _ _
  case h_2 => exact start _ _ _ _
  case h_3 => exact List.foldlRecOn _ addToken (start _ _ _ _) fun i spec t _ => step i t spec

theorem tokens_addToken (i : Identifier) (t : List Char) : (addToken i t).tokens = i.tokens := by
  unfold addToken
  repeat' split
  all_goals rfl

theorem tokens_foldl (i : Identifier) (ts : List (List Char)) : (ts.foldl addToken i).tokens = i.tokens := by
  induction ts generalizing i with
  | nil => rfl
  | cons t ts ih => rw [List.foldl_cons, ih, tokens_addToken]

theorem selectValue_addToken {t : List Char} (other : ¬ "select_".toList <+: t) (i : Identifier) :
    (addToken i t).selectValue = i.selectValue := by
  have absent := Text.after?_eq_none_iff.mpr other
  unfold addToken
  simp only [absent]
  repeat' split
  all_goals rfl

/-- No token makes an identifier that of a select field. -/
theorem kind_addToken {i : Identifier} (before : i.kind ≠ some .select) (t : List Char) :
    (addToken i t).kind ≠ some .select := by
  have first : ∀ k, k ≠ .select → i.kind.or (some k) ≠ some .select := by
    intro k other
    cases found : i.kind with
    | none => simpa using other
    | some known => rwa [found] at before
  unfold addToken
  split
  case h_1 kind found =>
    obtain ⟨_, _, entries, -⟩ := List.lookup_eq_some_iff.mp found
    have entry : (String.ofList t, kind) ∈ kindTokens := by simp [entries]
    exact first kind ((by decide : ∀ entry ∈ kindTokens, entry.2 ≠ .select) _ entry)
  case h_2 =>
    repeat' split
    all_goals first | exact before | exact first .date (by decide)

theorem kind_parse_ne_select (identifier : String) : (parse identifier).kind ≠ some .select :=
  parse_induction (P := fun i => i.kind ≠ some .select) (fun _ _ _ _ => nofun)
    (fun _ t before => kind_addToken before t) identifier

theorem isSome_selectValue_foldl (i : Identifier) (ts : List (List Char)) :
    (ts.foldl addToken i).selectValue.isSome = true ↔
      i.selectValue.isSome = true ∨ ∃ t ∈ ts, "select_".toList <+: t := by
  induction ts generalizing i with
  | nil => simp
  | cons t ts ih =>
      rw [List.foldl_cons, ih, List.exists_mem_cons_iff, ← or_assoc]
      apply or_congr_left
      by_cases choice : "select_".toList <+: t
      · obtain ⟨value, rfl⟩ := choice
        have made : addToken i ("select_".toList ++ value) = Token.apply i (.select (.ofList value)) := by
          rw [← Token.addToken_select, Token.text, String.toList_append, String.toList_ofList (l := value)]
        rw [made, Token.apply]
        exact iff_of_true rfl (.inr (List.prefix_append _ _))
      · rw [selectValue_addToken choice, or_iff_left choice]

/-- An identifier has a choice just if one of its tokens begins as a choice does. -/
theorem isSome_selectValue_parse (identifier : String) :
    (parse identifier).selectValue.isSome = true ↔
      ∃ token ∈ (parse identifier).tokens, "select_".toList <+: token.toList := by
  unfold parse
  split
  case h_1 => simp
  case h_2 => simp
  case h_3 base rest _ _ =>
    simp only [tokens_foldl, isSome_selectValue_foldl]
    simp

theorem base_addToken (i : Identifier) (t : List Char) : (addToken i t).base = i.base := by
  unfold addToken
  repeat' split
  all_goals rfl

theorem base_foldl (i : Identifier) (ts : List (List Char)) : (ts.foldl addToken i).base = i.base := by
  induction ts generalizing i with
  | nil => rfl
  | cons t ts ih => rw [List.foldl_cons, ih, base_addToken]

/-- The base is what stands before the first point. -/
theorem base_parse (identifier : String) :
    (parse identifier).base = Text.onChars (Text.beforeChar '.') identifier := by
  rw [Text.onChars, ← Text.fst_cutAtChar?]
  unfold parse
  split
  case h_1 found => rw [found, Option.map_none, Option.getD_none, String.ofList_toList]
  case h_2 base found =>
    rw [found]
    rfl
  case h_3 base rest _ found =>
    rw [found]
    exact base_foldl _ _

theorem base_parse_eq_empty_iff {identifier : String} (some : identifier ≠ "") :
    (parse identifier).base = "" ↔ ".".toList <+: identifier.toList := by
  rw [base_parse, Text.onChars, Text.beforeChar, String.ofList_eq_empty_iff]
  cases chars : identifier.toList with
  | nil => exact absurd (String.toList_eq_nil_iff.mp chars) some
  | cons c text =>
      have point : ".".toList = ['.'] := rfl
      rw [List.takeWhile_cons, point, List.cons_prefix_cons, and_iff_left (List.nil_prefix)]
      by_cases here : c = '.'
      · simp [here]
      · simp [here, Ne.symm here]

/-- Whatever tokens say about hiding is one of two things. -/
theorem hiddenWhen_parse (identifier : String) :
    ∀ w ∈ (parse identifier).hiddenWhen, w = "checked" ∨ w = "unchecked" := by
  refine parse_induction (P := fun i => ∀ w ∈ i.hiddenWhen, w = "checked" ∨ w = "unchecked")
    (fun _ _ _ _ => nofun) (fun i t before => ?_) identifier
  unfold addToken
  repeat' split
  all_goals first | exact before | simp

end SvgForm.Identifier
