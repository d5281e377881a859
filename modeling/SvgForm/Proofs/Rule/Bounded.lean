import SvgForm.Proofs.Text.Cut
import SvgForm.Rule.Basic
/-! # Values of a wanted length

A rule that makes a value of a wanted length makes the value that it makes without one, with padding where its
last fill directive stands, and cuts it. The padding is as long as is missing, so the length is met exactly; a
rule without such a directive is cut only. Either way the same draws are made.
-/

namespace SvgForm

namespace Text

variable {text : List Char} {n : Nat}

/-! ## Padding -/

theorem length_repeated (text : List Char) (n : Nat) : (repeated text n).length = n * text.length := by
  induction n with
  | zero => simp [repeated]
  | succ n ih => rw [repeated, List.length_append, ih, Nat.succ_mul, Nat.add_comm]

theorem getElem?_repeated {i : Nat} (within : i < n * text.length) :
    (repeated text n)[i]? = text[i % text.length]? := by
  induction n generalizing i with
  | zero => simp at within
  | succ n ih =>
      rw [repeated]
      rw [Nat.succ_mul] at within
      by_cases here : i < text.length
      · rw [List.getElem?_append_left here, Nat.mod_eq_of_lt here]
      · rw [List.getElem?_append_right (Nat.le_of_not_lt here), ih (by omega), ← Nat.mod_eq_sub_mod (by omega)]

/-- A text is as long as wanted, and goes on from the start of another wherever that one ends. -/
structure Cycles (text : List Char) (n : Nat) (s : List Char) : Prop where
  length : s.length = n
  periodic : ∀ i < n, s[i]? = text[i % text.length]?

theorem cycles_cycled (some : text ≠ []) (n : Nat) : Cycles text n (cycled text n) := by
  have positive := List.length_pos_iff.mpr some
  have enough : n ≤ (n + text.length - 1) / text.length * text.length := by
    have rest := Nat.mod_lt (n + text.length - 1) positive
    have whole := Nat.div_add_mod (n + text.length - 1) text.length
    rw [Nat.mul_comm] at whole
    omega
  refine ⟨?_, fun i within => ?_⟩
  · rw [cycled, List.length_take, length_repeated, Nat.min_eq_left enough]
  · rw [cycled, List.getElem?_take_of_lt within, getElem?_repeated (Nat.lt_of_lt_of_le within enough)]

end Text

namespace Rule

variable {known : KnownValues} {row : List Segment} {d : Draws}

/-! ## What segments say -/

/-- A segment pads with a text: it is a directive of that text and a mark, which a newline may follow. A mark alone
pads with `<`. -/
inductive Segment.Fills : Segment → List Char → Prop
  | text {fill ending : List Char} (some : fill ≠ []) (ends : ending ∈ [[], ['\n']]) :
      Fills (.directive (fill ++ "[fill]".toList ++ ending)) fill
  | mark {ending : List Char} (ends : ending ∈ [[], ['\n']]) : Fills (.directive ("[fill]".toList ++ ending)) ['<']

/-- The text that a segment pads with; nothing if it does not pad. -/
def Segment.fill? : Segment → Option (List Char)
  | .static _ => none
  | .directive content => (Rule.fill? content).map fillText

/-- What a segment says when nothing is padded. -/
def Segment.say (known : KnownValues) (d : Draws) : Segment → List Char × Draws
  | .static text => (text, d)
  | .directive content =>
    match Rule.fill? content with
    | some _ => ([], d)
    | none => resolveDirective known content d

/-- What segments say one after another when nothing is padded. -/
def sayAll (known : KnownValues) : List Segment → Draws → List Char × Draws
  | [], d => ([], d)
  | s :: rest, d =>
    let (text, d) := s.say known d
    let (more, d) := sayAll known rest d
    (text ++ more, d)

theorem sayAll_append (first rest : List Segment) (d : Draws) :
    sayAll known (first ++ rest) d =
      ((sayAll known first d).1 ++ (sayAll known rest (sayAll known first d).2).1,
        (sayAll known rest (sayAll known first d).2).2) := by
  induction first generalizing d with
  | nil => rfl
  | cons s first ih => simp [sayAll, ih]

theorem sayAll_cons (s : Segment) (rest : List Segment) (d : Draws) : sayAll known (s :: rest) d =
    ((s.say known d).1 ++ (sayAll known rest (s.say known d).2).1, (sayAll known rest (s.say known d).2).2) := rfl

theorem Segment.exists_of_fill {s : Segment} {fill : List Char} (fills : s.fill? = some fill) :
    ∃ content mark, s = .directive content ∧ Rule.fill? content = some mark ∧ fillText mark = fill := by
  cases s with
  | static text => simp [fill?] at fills
  | directive content =>
      obtain ⟨mark, found, padding⟩ := Option.map_eq_some_iff.mp fills
      exact ⟨content, mark, rfl, found, padding⟩

theorem fill?_eq_some_iff {content mark : List Char} :
    Rule.fill? content = some mark ↔ ∃ ending ∈ [[], ['\n']], content = mark ++ "[fill]".toList ++ ending := by
  have last : mark ++ "[fill]".toList = (mark ++ "[fill".toList) ++ [']'] := by simp
  rw [Rule.fill?, Text.before?_eq_some_iff]
  constructor
  · intro same
    obtain ⟨ending, mem, whole⟩ := Text.eq_dropNewlineAtEnd_append content
    exact ⟨ending, mem, by rw [← same, ← whole]⟩
  · rintro ⟨ending, mem, rfl⟩
    rcases List.mem_pair.mp mem with rfl | rfl
    · rw [List.append_nil, last, Text.dropNewlineAtEnd_concat (by decide)]
    · exact Text.dropNewlineAtEnd_append _

theorem Segment.fills_iff {s : Segment} {fill : List Char} : s.Fills fill ↔ s.fill? = some fill := by
  constructor
  · intro fills
    cases fills with
    | text some ends => rw [fill?, fill?_eq_some_iff.mpr ⟨_, ends, rfl⟩, Option.map_some, fillText, if_neg some]
    | @mark ending ends =>
        have marked : Rule.fill? ("[fill]".toList ++ ending) = some [] := fill?_eq_some_iff.mpr ⟨_, ends, rfl⟩
        rw [fill?, marked, Option.map_some, fillText, if_pos rfl]
  · intro found
    obtain ⟨content, mark, rfl, marked, rfl⟩ := exists_of_fill found
    obtain ⟨ending, ends, rfl⟩ := fill?_eq_some_iff.mp marked
    by_cases none : mark = []
    · subst none
      exact .mark ends
    · rw [fillText, if_neg none]
      exact .text none ends

theorem Segment.not_fills_iff {s : Segment} : (∀ fill, ¬ s.Fills fill) ↔ s.fill? = none := by
  simp only [fills_iff, Option.eq_none_iff_forall_ne_some, ne_eq]

theorem Segment.fill_ne_nil {s : Segment} {fill : List Char} (fills : s.fill? = some fill) : fill ≠ [] := by
  obtain ⟨_, mark, -, -, rfl⟩ := exists_of_fill fills
  rw [fillText]
  split
  · simp
  · assumption

theorem Segment.say_of_fill {s : Segment} {fill : List Char} (fills : s.fill? = some fill) (d : Draws) :
    s.say known d = ([], d) := by
  obtain ⟨content, mark, rfl, found, -⟩ := exists_of_fill fills
  simp [say, found]

/-- The last fill directive among segments, if there is any. -/
theorem last_fill (row : List Segment) : (∀ s ∈ row, s.fill? = none) ∨
    ∃ before s fill after, row = before ++ s :: after ∧ s.fill? = some fill ∧ ∀ s ∈ after, s.fill? = none := by
  induction row with
  | nil => exact .inl (by simp)
  | cons s rest ih =>
      rcases ih with none | ⟨before, last, fill, after, rfl, found, none⟩
      · cases own : s.fill? with
        | none => exact .inl (List.forall_mem_cons.mpr ⟨own, none⟩)
        | some fill => exact .inr ⟨[], s, fill, rest, rfl, own, none⟩
      · exact .inr ⟨s :: before, last, fill, after, rfl, found, none⟩

/-! ## What segments contribute -/

variable {padded : Bool} {s : Segment} {fill : List Char} {rest : List Segment}

theorem pieces_of_fill (fills : s.fill? = some fill) : pieces known padded (s :: rest) d =
    (if padded then .room fill :: (pieces known padded rest d).1 else (pieces known padded rest d).1,
      (pieces known padded rest d).2) := by
  obtain ⟨content, mark, rfl, found, rfl⟩ := Segment.exists_of_fill fills
  simp [pieces, found]

theorem pieces_of_say (speaks : s.fill? = none) : pieces known padded (s :: rest) d =
    (.text (s.say known d).1 :: (pieces known padded rest (s.say known d).2).1,
      (pieces known padded rest (s.say known d).2).2) := by
  cases s with
  | static text => rfl
  | directive content =>
      have found := Option.map_eq_none_iff.mp speaks
      simp [pieces, Segment.say, found]

theorem pieces_append (first rest : List Segment) (d : Draws) : pieces known padded (first ++ rest) d =
    ((pieces known padded first d).1 ++ (pieces known padded rest (pieces known padded first d).2).1,
      (pieces known padded rest (pieces known padded first d).2).2) := by
  induction first generalizing d with
  | nil => rfl
  | cons s first ih =>
      cases own : s.fill? with
      | none => simp [pieces_of_say own, ih]
      | some fill => cases padded <;> simp [pieces_of_fill own, ih]

theorem join_zero_room (fill : List Char) (more : List Piece) : join 0 (.room fill :: more) = join 0 more := by
  simp [join, Text.cycled]

/-- Segments make the same draws and say the same whether there is room for padding or not. -/
theorem pieces_say (known : KnownValues) (padded : Bool) (row : List Segment) (d : Draws) :
    join 0 (pieces known padded row d).1 = (sayAll known row d).1 ∧
      (pieces known padded row d).2 = (sayAll known row d).2 := by
  induction row generalizing d with
  | nil => exact ⟨rfl, rfl⟩
  | cons s rest ih =>
      cases own : s.fill? with
      | none =>
          obtain ⟨text, draws⟩ := ih (s.say known d).2
          simp [pieces_of_say own, sayAll_cons, join, text, draws]
      | some fill =>
          obtain ⟨text, draws⟩ := ih d
          cases padded <;>
            simp [pieces_of_fill own, sayAll_cons, Segment.say_of_fill own, join_zero_room, text, draws]

theorem pieces_no_room (known : KnownValues) (padded : Bool) (speak : ∀ s ∈ row, s.fill? = none) (d : Draws) :
    ∀ p ∈ (pieces known padded row d).1, p.isRoom = false := by
  induction row generalizing d with
  | nil => simp [pieces]
  | cons s rest ih =>
      obtain ⟨own, speak⟩ := List.forall_mem_cons.mp speak
      rw [pieces_of_say own]
      exact List.forall_mem_cons.mpr ⟨rfl, ih speak _⟩

theorem join_of_no_room {made : List Piece} (texts : ∀ p ∈ made, p.isRoom = false) (missing : Nat) :
    join missing made = join 0 made := by
  induction made with
  | nil => rfl
  | cons p made ih =>
      obtain ⟨own, others⟩ := List.forall_mem_cons.mp texts
      cases p with
      | text t => rw [join, join, ih others]
      | room fill => simp [Piece.isRoom] at own

/-- All that is missing goes to the last room. -/
theorem join_last_room {made : List Piece} (texts : ∀ p ∈ made, p.isRoom = false) (first : List Piece)
    (missing : Nat) : join missing (first ++ .room fill :: made) =
      join 0 first ++ Text.cycled fill missing ++ join 0 made := by
  have quiet : made.any Piece.isRoom = false := by simpa using texts
  induction first with
  | nil => simp [join, quiet, join_of_no_room texts missing]
  | cons p first ih =>
      cases p with
      | text t => simp [join, ih]
      | room other => simp [join, Piece.isRoom, ih, Text.cycled]

/-! ## The value of a rule -/

theorem generate_none (rule : List Char) (known : KnownValues) (d : Draws) :
    generate rule known none d = sayAll known (segments rule) d :=
  Prod.ext (pieces_say known false (segments rule) d).1 (pieces_say known false (segments rule) d).2

theorem generate_some (rule : List Char) (known : KnownValues) (m : Nat) (d : Draws) :
    generate rule known (some m) d =
      ((join (m - (sayAll known (segments rule) d).1.length) (pieces known true (segments rule) d).1).take m,
        (sayAll known (segments rule) d).2) := by
  obtain ⟨text, draws⟩ := pieces_say known true (segments rule) d
  have short : ¬ (m : Int) < 0 := by omega
  have missing (n : Nat) : ((m : Int) - n).toNat = m - n := by omega
  simp [generate, cutTo, short, text, draws, missing]

/-- A rule without a fill directive makes its value cut to the wanted length. With one, the value is padded where
the last of them stands, by as much as is missing, and then cut; it has the wanted length exactly, and all that
the rule says is in it if that fits. -/
theorem generate_bounded (rule : List Char) (known : KnownValues) (m : Nat) (d : Draws) :
    (∀ s ∈ segments rule, ∀ fill, ¬ s.Fills fill) ∧
        generate rule known (some m) d =
          ((generate rule known none d).1.take m, (generate rule known none d).2) ∨
      ∃ before s fill after, segments rule = before ++ s :: after ∧ s.Fills fill ∧
        (∀ s ∈ after, ∀ fill, ¬ s.Fills fill) ∧
        ∃ a b pad between last, sayAll known before d = (a, between) ∧ sayAll known after between = (b, last) ∧
          generate rule known none d = (a ++ b, last) ∧
          Text.Cycles fill (m - (a ++ b).length) pad ∧
          generate rule known (some m) d = ((a ++ pad ++ b).take m, last) ∧
          ((a ++ pad ++ b).take m).length = m ∧
          ((a ++ b).length ≤ m → (a ++ pad ++ b).take m = a ++ pad ++ b) := by
  rw [generate_some, generate_none]
  rcases last_fill (segments rule) with speak | ⟨before, s, fill, after, parted, fills, speak⟩
  · refine .inl ⟨fun s mem => Segment.not_fills_iff.mpr (speak s mem), ?_⟩
    rw [join_of_no_room (pieces_no_room known true speak d), (pieces_say known true (segments rule) d).1]
  · obtain ⟨a, between, sayBefore⟩ : ∃ a between, sayAll known before d = (a, between) := ⟨_, _, rfl⟩
    obtain ⟨b, last, sayAfter⟩ : ∃ b last, sayAll known after between = (b, last) := ⟨_, _, rfl⟩
    have whole : sayAll known (segments rule) d = (a ++ b, last) := by
      rw [parted, sayAll_append, sayAll_cons, Segment.say_of_fill fills, sayBefore, List.nil_append, sayAfter]
    have padded := Text.cycles_cycled (Segment.fill_ne_nil fills) (m - (a ++ b).length)
    have length := padded.length
    have filled : join (m - (a ++ b).length) (pieces known true (segments rule) d).1 =
        a ++ Text.cycled fill (m - (a ++ b).length) ++ b := by
      obtain ⟨textBefore, draws⟩ := pieces_say known true before d
      obtain ⟨textAfter, -⟩ := pieces_say known true after between
      rw [sayBefore] at textBefore draws
      rw [sayAfter] at textAfter
      rw [parted, pieces_append, draws, pieces_of_fill fills, if_pos rfl,
        join_last_room (pieces_no_room known true speak between), textBefore, textAfter]
    refine .inr ⟨before, s, fill, after, parted, Segment.fills_iff.mpr fills,
      fun s mem => Segment.not_fills_iff.mpr (speak s mem), a, b, _, between, last, sayBefore, sayAfter, whole,
      padded, ?_, ?_, fun fits => ?_⟩
    · rw [whole, filled]
    · simp only [List.length_take, List.length_append] at length ⊢
      omega
    · refine List.take_of_length_le ?_
      simp only [List.length_append] at fits length ⊢
      omega

/-- Of two fill directives the first pads nothing, and what stands after the second is kept. -/
example : (generate "A(-[fill])(rn[2])(xy[fill])Z".toList [] (some 9) (.cycling [4, 7])).1 = "A47xyxyxZ".toList := by
  decide +kernel

end Rule

end SvgForm
