import SvgForm.Proofs.Identifier.Token
/-! # Identifiers read back

An identifier that is put together from a base, tokens, a tracking link and a generation rule says just what was
put into it.
-/

namespace SvgForm.Identifier

/-- What an identifier is put together from. -/
structure Description where
  base : String
  tokens : List Token := []
  link : Option String := none
  rule : Option String := none

namespace Description

variable {d : Description}

def blocks (d : Description) : List String :=
  d.tokens.map Token.text ++ (d.link.map ("link_" ++ ·)).toList ++ (d.rule.map ("gen_" ++ ·)).toList

def text (d : Description) : String :=
  ".".intercalate (d.base :: d.blocks)

structure WellFormed (d : Description) : Prop where
  base : '.' ∉ d.base.toList
  tokens : ∀ t ∈ d.tokens, t.WellFormed
  /-- No attribute is set twice. -/
  once : (d.tokens.map Token.sets).Nodup
  /-- No word for a kind comes after a date format. -/
  kindFirst : d.tokens.Pairwise fun t u => t.sets = .dateFormat → u.sets ≠ .kind
  link : ∀ u ∈ d.link, Unreserved u.toList
  rule : ∀ g ∈ d.rule, Unreserved g.toList

end Description

/-- The identifier says what the description holds and nothing else. -/
structure Says (i : Identifier) (d : Description) : Prop where
  base : i.base = d.base
  tokens : i.tokens = d.tokens.map Token.text
  kind : ∀ k, i.kind = some k ↔
    (∃ word, .kind word k ∈ d.tokens) ∨
      k = .date ∧ (∃ format, .dateFormat format ∈ d.tokens) ∧ ∀ word k, .kind word k ∉ d.tokens
  maxLength : ∀ n, i.maxLength = some n ↔ ∃ digits, .max digits ∈ d.tokens ∧ Text.natOfDigits digits.toList = n
  minLength : ∀ n, i.minLength = some n ↔ ∃ digits, .min digits ∈ d.tokens ∧ Text.natOfDigits digits.toList = n
  generationRule : i.generationRule = d.rule
  generationMode : ∀ v, i.generationMode = some v ↔ .mode v ∈ d.tokens
  dependsOn : ∀ r, i.dependsOn = some r ↔ .depends r ∈ d.tokens
  dateFormat : ∀ f, i.dateFormat = some f ↔ .dateFormat f ∈ d.tokens
  editable : i.editable = false ↔ .editableFalse ∈ d.tokens
  selectValue : ∀ s, i.selectValue = some s ↔ .select s ∈ d.tokens
  hiddenWhen : ∀ w, i.hiddenWhen = some w ↔
    w = "checked" ∧ .hideChecked ∈ d.tokens ∨ w = "unchecked" ∧ .hideUnchecked ∈ d.tokens
  trackingId : i.trackingId = true ↔ .trackingId ∈ d.tokens
  trackingLink : i.trackingLink = d.link
  trackingRole : ∀ t, i.trackingRole = some t ↔ .track t ∈ d.tokens
  grayscale : i.grayscale = true ↔ .grayscale ∈ d.tokens

/-! ## Reading -/

namespace Description

variable {d : Description}

theorem toList_text (d : Description) :
    d.text.toList = d.base.toList ++ dotted (d.blocks.map String.toList) := by
  rw [text, String.toList_intercalate, List.map_cons]
  generalize d.base.toList = head
  induction d.blocks.map String.toList generalizing head with
  | nil => simp [dotted, List.intercalate]
  | cons t texts ih =>
      rw [List.intercalate_cons_cons, ih]
      simp [dotted]

def words (d : Description) : List (List Char) :=
  d.tokens.map (·.text.toList)

def linkWords (d : Description) : List (List Char) :=
  ((d.link.map String.toList).map ("link_".toList ++ ·)).toList

def ruleWords (d : Description) : List (List Char) :=
  ((d.rule.map String.toList).map ("gen_".toList ++ ·)).toList

theorem toList_blocks (d : Description) :
    d.blocks.map String.toList = d.words ++ d.linkWords ++ d.ruleWords := by
  cases link : d.link <;> cases rule : d.rule <;> simp [blocks, words, linkWords, ruleWords, link, rule]

theorem not_begins_name {t : Token} (h : t.Proper) :
    ¬ "gen_".toList <+: t.text.toList ∧ ¬ "link_".toList <+: t.text.toList := by
  cases t with
  | kind word named =>
      exact (by decide : ∀ entry ∈ kindTokens, ¬ "gen_".toList <+: entry.1.toList ∧
        ¬ "link_".toList <+: entry.1.toList) (word, named) h
  | _ => simp [Token.text, List.cons_prefix_cons]

theorem cutSpan_rule (hd : d.WellFormed) :
    cutSpan "gen_".toList (dotted (d.words ++ d.linkWords ++ d.ruleWords)) =
      (d.rule.map String.toList, dotted (d.words ++ d.linkWords)) := by
  apply cutSpan_dotted (by decide)
  · intro t mem
    rcases List.mem_append.mp mem with word | link
    · obtain ⟨u, listed, rfl⟩ := List.mem_map.mp word
      exact ⟨(not_begins_name (hd.tokens u listed).proper).1, (hd.tokens u listed).noRule⟩
    · obtain ⟨u, given, rfl⟩ : ∃ u, d.link = some u ∧ "link_".toList ++ u.toList = t := by
        simpa [linkWords] using link
      refine ⟨by simp [List.cons_prefix_cons], fun found => ?_⟩
      exact hd.link u given "gen_" (by decide) (Text.infix_of_append (by decide) found)
  · intro g given
    obtain ⟨rule, found, rfl⟩ := Option.map_eq_some_iff.mp given
    exact hd.rule rule found

theorem cutSpan_link (hd : d.WellFormed) :
    cutSpan "link_".toList (dotted (d.words ++ d.linkWords)) =
      (d.link.map String.toList, dotted d.words) := by
  apply cutSpan_dotted (by decide)
  · intro t mem
    obtain ⟨u, listed, rfl⟩ := List.mem_map.mp mem
    exact ⟨(not_begins_name (hd.tokens u listed).proper).2, (hd.tokens u listed).noLink⟩
  · intro u given
    obtain ⟨link, found, rfl⟩ := Option.map_eq_some_iff.mp given
    exact hd.link link found

theorem splitTokens_words (hd : d.WellFormed) : splitTokens (dotted d.words) = d.words := by
  apply splitTokens_dotted
  · intro t mem
    obtain ⟨u, listed, rfl⟩ := List.mem_map.mp mem
    exact (hd.tokens u listed).balanced
  · intro t mem
    obtain ⟨u, listed, rfl⟩ := List.mem_map.mp mem
    simpa using Token.text_ne_empty (hd.tokens u listed).proper

theorem foldl_words (hd : d.WellFormed) (i : Identifier) :
    d.words.foldl addToken i = d.tokens.foldl Token.apply i := by
  rw [words, List.foldl_map]
  exact List.foldl_ext _ _ _ fun i t mem => Token.addToken_text (hd.tokens t mem) i

theorem ne_nil_of_mem (hd : d.WellFormed) {b : List Char} (mem : b ∈ d.words ++ d.linkWords ++ d.ruleWords) :
    b ≠ [] := by
  simp only [List.mem_append, linkWords, ruleWords, Option.mem_toList, Option.map_eq_some_iff] at mem
  rcases mem with (word | ⟨_, -, rfl⟩) | ⟨_, -, rfl⟩
  · obtain ⟨u, listed, rfl⟩ := List.mem_map.mp word
    simpa using Token.text_ne_empty (hd.tokens u listed).proper
  · simp
  · simp

/-- An identifier is read by adding its tokens to what its base, its rule and its link give. -/
theorem parse_eq (hd : d.WellFormed) :
    parse d.text = d.tokens.foldl Token.apply
      { base := d.base, tokens := d.tokens.map Token.text, generationRule := d.rule, trackingLink := d.link } := by
  have text := d.toList_text
  rw [toList_blocks] at text
  cases blocks : d.words ++ d.linkWords ++ d.ruleWords with
  | nil =>
      -- Without a point the base is all there is.
      have bare : d.tokens = [] ∧ d.link = none ∧ d.rule = none := by
        simpa [words, linkWords, ruleWords] using blocks
      rw [blocks, dotted, List.flatMap_nil, List.append_nil] at text
      have same : d.text = d.base := String.toList_inj.mp text
      rw [parse, text, Text.cutAtChar?_eq_none hd.base, same, bare.1, bare.2.1, bare.2.2]
      rfl
  | cons b rest =>
      -- The base ends at the first point, and from there on the text is that of the blocks.
      rw [blocks] at text
      have parted := Text.cutAtChar?_append hd.base (b ++ dotted rest)
      have whole : '.' :: (b ++ dotted rest) = dotted (d.words ++ d.linkWords ++ d.ruleWords) := by
        rw [blocks]
        rfl
      cases after : b ++ dotted rest with
      | nil => 
          have some : b ≠ [] := ne_nil_of_mem hd (by rw [blocks]; exact List.mem_cons_self)
          exact absurd (List.append_eq_nil_iff.mp after).1 some
      | cons c s =>
          rw [after] at whole parted
          have read : d.text.toList = d.base.toList ++ '.' :: c :: s := by
            rw [text, ← after]
            rfl
          rw [parse, read, parted]
          simp only [whole, cutSpan_rule hd, cutSpan_link hd, splitTokens_words hd, foldl_words hd]
          simp [words, Function.comp_def]

end Description

/-- What every token leaves alone comes from the base, the rule and the link. -/
theorem foldl_apply_fixed (ts : List Token) (i : Identifier) :
    (ts.foldl Token.apply i).base = i.base ∧ (ts.foldl Token.apply i).tokens = i.tokens ∧
      (ts.foldl Token.apply i).generationRule = i.generationRule ∧
      (ts.foldl Token.apply i).trackingLink = i.trackingLink := by
  induction ts generalizing i with
  | nil => exact ⟨rfl, rfl, rfl, rfl⟩
  | cons t ts ih =>
      have step := ih (Token.apply i t)
      cases t <;> exact step

/-- An identifier is read as what it was put together from. -/
theorem parse_text {d : Description} (hd : d.WellFormed) : (parse d.text).Says d := by
  rw [Description.parse_eq hd]
  have once := hd.once
  obtain ⟨base, tokens, rule, link⟩ := foldl_apply_fixed d.tokens
    { base := d.base, tokens := d.tokens.map Token.text, generationRule := d.rule, trackingLink := d.link }
  exact {
    base := base
    tokens := tokens
    generationRule := rule
    trackingLink := link
    kind := by
      intro k
      rw [Token.kind_foldl, Option.none_or]
      exact Token.findSome?_kind once hd.kindFirst
    maxLength := fun n => Token.reads_maxLength.foldl_eq_some_iff once rfl
    minLength := fun n => Token.reads_minLength.foldl_eq_some_iff once rfl
    generationMode := fun v => by simpa using Token.reads_generationMode.foldl_eq_some_iff once rfl
    dependsOn := fun r => by simpa using Token.reads_dependsOn.foldl_eq_some_iff once rfl
    dateFormat := fun f => by simpa using Token.reads_dateFormat.foldl_eq_some_iff once rfl
    selectValue := fun s => by simpa using Token.reads_selectValue.foldl_eq_some_iff once rfl
    trackingRole := fun t => by simpa using Token.reads_trackingRole.foldl_eq_some_iff once rfl
    hiddenWhen := by
      intro w
      rw [Token.reads_hiddenWhen.foldl_eq_some_iff once rfl]
      simp [Token.hide, eq_comm, and_comm, or_comm]
    editable := by
      rw [Token.foldl_iff_mem (fun i => i.editable = false) .editableFalse]
      · simp
      · intro i u
        cases u <;> simp [Token.apply]
    trackingId := by
      rw [Token.foldl_iff_mem (fun i => i.trackingId = true) .trackingId]
      · simp
      · intro i u
        cases u <;> simp [Token.apply]
    grayscale := by
      rw [Token.foldl_iff_mem (fun i => i.grayscale = true) .grayscale]
      · simp
      · intro i u
        cases u <;> simp [Token.apply] }

/-- A date whose format and link hold points, and a rule with a point and brackets. -/
def issued : Description where
  base := "Issued"
  tokens := [.max "012", .hideUnchecked, .dateFormat "DD.MM[.]", .depends "Birth[ch1]", .track "ref"]
  link := some "https://example.com/q"
  rule := some "A.(rn[5]"

theorem parse_issued : issued.WellFormed ∧
    issued.text = "Issued.max_012.hide_unchecked.date_format[DD.MM[.]].depends_Birth[ch1].track_ref" ++
      ".link_https://example.com/q.gen_A.(rn[5]" ∧
    (parse issued.text).maxLength = some 12 ∧ (parse issued.text).Says issued := by
  have wellFormed : issued.WellFormed :=
    ⟨by decide, by decide +kernel, by decide, by decide, by decide, by decide⟩
  have read := parse_text wellFormed
  exact ⟨wellFormed, by decide +kernel, (read.maxLength 12).mpr ⟨"012", List.mem_cons_self, by decide⟩, read⟩

end SvgForm.Identifier
