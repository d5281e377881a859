import SvgForm.Identifier
import SvgForm.Proofs.Text.Cut
/-! # Pieces of identifiers

A text is parted where a point stands outside brackets, and so parts of it in which all brackets are closed can
be parted on their own. A rule or a link that holds no reserved extension is cut out whole.
-/

namespace SvgForm.Identifier

variable {d : Nat} {s t : List Char}

/-! ## Brackets -/

/-- How many brackets are open after a character. -/
def opened (depth : Nat) (c : Char) : Nat :=
  if c = '[' then depth + 1 else if c = ']' then depth - 1 else depth

def depthAfter (depth : Nat) (text : List Char) : Nat :=
  text.foldl opened depth

theorem pieces_cons (d : Nat) (c : Char) (t : List Char) :
    pieces d (c :: t) =
      if c = '.' ∧ opened d c = 0 then [] :: pieces (opened d c) t
      else (pieces (opened d c) t).modifyHead (c :: ·) :=
  rfl

theorem pieces_ne_nil (d : Nat) (t : List Char) : pieces d t ≠ [] := by
  induction t generalizing d with
  | nil => simp [pieces]
  | cons c t ih =>
      rw [pieces_cons]
      split
      · simp
      · cases found : pieces (opened d c) t with
        | nil => exact absurd found (ih _)
        | cons => simp

/-- A text is parted at a point where no bracket is open. -/
theorem pieces_append (closed : depthAfter d s = 0) (t : List Char) :
    pieces d (s ++ '.' :: t) = pieces d s ++ pieces 0 t := by
  induction s generalizing d with
  | nil =>
      have here : d = 0 := closed
      subst here
      rfl
  | cons c s ih =>
      have rest := ih (d := opened d c) closed
      rw [List.cons_append, pieces_cons, pieces_cons, rest]
      split
      · rfl
      · cases found : pieces (opened d c) s with
        | nil => exact absurd found (pieces_ne_nil _ _)
        | cons => rfl

/-- Whether every point stands inside brackets, where `depth` of them are open before the text. -/
def Enclosed (depth : Nat) (text : List Char) : Prop :=
  ∀ before after, text = before ++ '.' :: after → 0 < depthAfter depth before

theorem enclosed_nil (d : Nat) : Enclosed d [] := by
  intro before after split
  simp at split

theorem enclosed_cons {c : Char} :
    Enclosed d (c :: t) ↔ ¬ (c = '.' ∧ opened d c = 0) ∧ Enclosed (opened d c) t := by
  constructor
  · intro h
    refine ⟨?_, fun before after split => h (c :: before) after (by rw [split]; rfl)⟩
    rintro ⟨rfl, none⟩
    exact absurd none (Nat.ne_of_gt (h [] t rfl))
  · rintro ⟨here, later⟩ before after split
    cases before with
    | nil =>
        obtain ⟨rfl, -⟩ := List.cons.inj split
        exact Nat.pos_of_ne_zero fun none => here ⟨rfl, none⟩
    | cons b before =>
        obtain ⟨rfl, parted⟩ := List.cons.inj split
        exact later before after parted

theorem pieces_of_enclosed (h : Enclosed d t) : pieces d t = [t] := by
  induction t generalizing d with
  | nil => rfl
  | cons c t ih =>
      obtain ⟨here, later⟩ := enclosed_cons.mp h
      rw [pieces_cons, if_neg here, ih later]
      rfl

/-- Brackets match, and points stand only inside of them. -/
structure Balanced (text : List Char) : Prop where
  matching : ∀ i ≤ text.length, (text.take i).count ']' ≤ (text.take i).count '['
  closed : text.count ']' = text.count '['
  inside : ∀ i < text.length, text[i]? = some '.' → (text.take i).count ']' < (text.take i).count '['

instance (text : List Char) : Decidable (Balanced text) :=
  decidable_of_iff ((∀ i ≤ text.length, (text.take i).count ']' ≤ (text.take i).count '[') ∧
      text.count ']' = text.count '[' ∧
      ∀ i < text.length, text[i]? = some '.' → (text.take i).count ']' < (text.take i).count '[')
    ⟨fun ⟨matching, closed, inside⟩ => ⟨matching, closed, inside⟩,
      fun ⟨matching, closed, inside⟩ => ⟨matching, closed, inside⟩⟩

/-- Whether no more brackets are closed anywhere than were open before and are opened. -/
def Matching (depth : Nat) (text : List Char) : Prop :=
  ∀ i ≤ text.length, (text.take i).count ']' ≤ depth + (text.take i).count '['

theorem count_take_succ (x c : Char) (t : List Char) (i : Nat) :
    ((c :: t).take (i + 1)).count x = [c].count x + (t.take i).count x := by
  rw [List.take_succ_cons, ← List.singleton_append, List.count_append]

namespace Matching

variable {c : Char}

theorem opened (h : Matching d (c :: t)) : opened d c + [c].count ']' = d + [c].count '[' := by
  have first : [c].count ']' ≤ d + [c].count '[' := h 1 (by simp)
  unfold Identifier.opened
  by_cases opens : c = '['
  · simp [opens]
  · by_cases closes : c = ']'
    · simp [closes] at first ⊢
      omega
    · simp [opens, closes]

theorem tail (h : Matching d (c :: t)) : Matching (Identifier.opened d c) t := by
  intro i le
  have first := h.opened
  have upTo := h (i + 1) (by simpa using le)
  rw [count_take_succ, count_take_succ] at upTo
  omega

theorem depthAfter (h : Matching d t) : depthAfter d t + t.count ']' = d + t.count '[' := by
  induction t generalizing d with
  | nil => rfl
  | cons c t ih =>
      have first := h.opened
      have rest := ih h.tail
      rw [← List.singleton_append, List.count_append, List.count_append]
      have step : Identifier.depthAfter d ([c] ++ t) = Identifier.depthAfter (Identifier.opened d c) t := rfl
      omega

theorem of_append (h : Matching d (s ++ t)) : Matching d s := by
  intro i le
  have upTo := h i (by rw [List.length_append]; omega)
  rwa [List.take_append_of_le_length le] at upTo

theorem enclosed (h : Matching d t)
    (inside : ∀ i < t.length, t[i]? = some '.' → (t.take i).count ']' < d + (t.take i).count '[') :
    Enclosed d t := by
  rintro before after rfl
  have depth := h.of_append.depthAfter
  have upTo := inside before.length (by simp) (by simp)
  rw [List.take_left] at upTo
  omega

end Matching

namespace Balanced

theorem within (h : Balanced t) : Matching 0 t := by
  simpa [Matching] using h.matching

theorem depthAfter (h : Balanced t) : depthAfter 0 t = 0 := by
  have depth := h.within.depthAfter
  have closed := h.closed
  omega

theorem pieces (h : Balanced t) : pieces 0 t = [t] :=
  pieces_of_enclosed (h.within.enclosed (by simpa using h.inside))

end Balanced

/-! ## Texts after points -/

/-- Texts, each after a point. -/
def dotted (texts : List (List Char)) : List Char :=
  texts.flatMap ('.' :: ·)

theorem pieces_append_dotted {texts : List (List Char)} (closed : depthAfter 0 s = 0)
    (balanced : ∀ t ∈ texts, Balanced t) : pieces 0 (s ++ dotted texts) = pieces 0 s ++ texts := by
  induction texts generalizing s with
  | nil => simp [dotted]
  | cons t texts ih =>
      have first := balanced t List.mem_cons_self
      calc pieces 0 (s ++ dotted (t :: texts))
        _ = pieces 0 (s ++ '.' :: (t ++ dotted texts)) := rfl
        _ = pieces 0 s ++ (pieces 0 t ++ texts) := by
          rw [pieces_append closed, ih first.depthAfter fun u mem => balanced u (List.mem_cons_of_mem t mem)]
        _ = pieces 0 s ++ t :: texts := by rw [first.pieces, List.singleton_append]

theorem splitTokens_dotted {texts : List (List Char)} (balanced : ∀ t ∈ texts, Balanced t)
    (some : ∀ t ∈ texts, t ≠ []) : splitTokens (dotted texts) = texts := by
  have parted := pieces_append_dotted (s := []) rfl balanced
  rw [List.nil_append] at parted
  rw [splitTokens, parted]
  simpa [pieces, List.filter_eq_self] using some

theorem head?_dotted (texts : List (List Char)) : ∀ x ∈ (dotted texts).head?, x = '.' := by
  intro x start
  cases texts with
  | nil => cases start
  | cons t texts => exact (Option.some.inj start).symm

/-- A name after a point stands within one of the texts. -/
theorem infix_dotted {name : List Char} {texts : List (List Char)} (undotted : '.' ∉ name)
    (h : '.' :: name <:+: dotted texts) : ∃ t ∈ texts, name <+: t ∨ '.' :: name <:+: t := by
  induction texts with
  | nil => simp [dotted] at h
  | cons t texts ih =>
      have parted : dotted (t :: texts) = ('.' :: t) ++ dotted texts := rfl
      rw [parted] at h
      rcases Text.infix_append_seam undotted (head?_dotted texts) h with first | later
      · exact ⟨t, List.mem_cons_self, by simpa [List.infix_cons_iff] using first⟩
      · obtain ⟨u, mem, found⟩ := ih later
        exact ⟨u, List.mem_cons_of_mem t mem, found⟩

/-! ## Rules and links -/

/-- Whether a text holds no reserved extension after a point. -/
def Unreserved (text : List Char) : Prop :=
  ∀ name ∈ reservedExtensions, ¬ '.' :: name.toList <:+: text

instance (text : List Char) : Decidable (Unreserved text) :=
  inferInstanceAs (Decidable (∀ name ∈ reservedExtensions, ¬ '.' :: name.toList <:+: text))

/-- A rule runs up to the first reserved extension. -/
theorem cutRule_append {rule rest : List Char} (free : Unreserved rule)
    (ends : rest = [] ∨ startsExtension (reservedExtensions.map (·.toList)) rest = true) :
    cutRule (reservedExtensions.map (·.toList)) (rule ++ rest) = (rule, rest) := by
  have seam : ∀ x ∈ rest.head?, x = '.' := by
    intro x start
    rcases ends with rfl | extension
    · cases start
    · obtain ⟨name, -, begins⟩ := List.any_eq_true.mp extension
      obtain ⟨tail, rfl⟩ := Text.startsWith_iff.mp begins
      exact (Option.some.inj start).symm
  induction rule with
  | nil =>
      cases rest with
      | nil => rfl
      | cons c rest => rw [List.nil_append, cutRule, if_pos (by simpa using ends)]
  | cons c rule ih =>
      have later : Unreserved rule := fun name mem found => free name mem (List.infix_cons found)
      have here : ¬ startsExtension (reservedExtensions.map (·.toList)) (c :: (rule ++ rest)) = true := by
        intro extension
        obtain ⟨name, mem, begins⟩ := List.any_eq_true.mp extension
        obtain ⟨word, reserved, rfl⟩ := List.mem_map.mp mem
        have undotted : '.' ∉ word.toList :=
          (by decide : ∀ word ∈ reservedExtensions, '.' ∉ word.toList) word reserved
        have start := Text.startsWith_iff.mp begins
        exact free word reserved
          (Text.prefix_append_seam undotted seam (List.cons_ne_nil c rule) start).isInfix
      rw [List.cons_append, cutRule, if_neg here, ih later]

theorem cutSpan_none {name text : List Char} (h : ¬ '.' :: name <:+: text) :
    cutSpan name text = (none, text) := by
  rw [cutSpan, Text.cutAt?_eq_none (List.cons_ne_nil _ _) h]

theorem cutSpan_append {name before value rest : List Char} (undotted : '.' ∉ name)
    (first : ¬ '.' :: name <:+: before) (free : Unreserved value)
    (ends : rest = [] ∨ startsExtension (reservedExtensions.map (·.toList)) rest = true) :
    cutSpan name (before ++ ('.' :: name ++ (value ++ rest))) = (some value, before ++ rest) := by
  rw [cutSpan, Text.cutAt?_append undotted first]
  simp only [cutRule_append free ends]

/-- A value is cut out of the last text, if no text before it has the name. -/
theorem cutSpan_dotted {name : List Char} {texts : List (List Char)} {value : Option (List Char)}
    (undotted : '.' ∉ name) (first : ∀ t ∈ texts, ¬ name <+: t ∧ ¬ '.' :: name <:+: t)
    (free : ∀ v ∈ value, Unreserved v) :
    cutSpan name (dotted (texts ++ (value.map (name ++ ·)).toList)) = (value, dotted texts) := by
  have absent : ¬ '.' :: name <:+: dotted texts := by
    intro found
    obtain ⟨t, mem, inside⟩ := infix_dotted undotted found
    exact inside.elim (first t mem).1 (first t mem).2
  cases value with
  | none =>
      rw [Option.map_none, Option.toList_none, List.append_nil, cutSpan_none absent]
  | some v =>
      have cut := cutSpan_append undotted absent (free v rfl) (.inl rfl)
      simpa [dotted] using cut

end SvgForm.Identifier
