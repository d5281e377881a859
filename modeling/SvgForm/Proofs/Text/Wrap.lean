import Mathlib.Data.List.Chain
import Mathlib.Data.List.Forall2
import SvgForm.Proofs.Decimal.Order
import SvgForm.Proofs.Text.Cut
import SvgForm.Text.Wrap
/-! # Wrapped texts

The lines of a wrapped text are its words in order, as many to a line as fit, each paragraph for itself. This
determines them. A line of a wrapped text is a paragraph that fills one line, so wrapping the lines again
changes nothing, however widths are measured.
-/

namespace SvgForm.Text

variable {ε : Type} {c : Char} {s t w line paragraph : List Char} {row ws : List (List Char)}

/-! ## Words -/

/-- A text without blanks that is not empty. -/
def IsWord (w : List Char) : Prop :=
  w ≠ [] ∧ ∀ c ∈ w, isBlank c = false

theorem words_append_blank (blank : isBlank c = true) (s t : List Char) :
    words (s ++ c :: t) = words s ++ words t := by
  simp only [words, List.splitOnP_append_cons s t blank, List.filter_append]

theorem words_of_isWord (word : IsWord w) : words w = [w] := by
  simp [words, List.splitOnP_eq_singleton word.2, word.1]

theorem isWord_of_mem_words (mem : w ∈ words s) : IsWord w := by
  obtain ⟨mem, some⟩ := List.mem_filter.mp mem
  exact ⟨by simpa using some, eq_false_of_mem_splitOnP mem⟩

/-- Words with a space between each and the next. -/
def joined (row : List (List Char)) : List Char :=
  [' '].intercalate row

theorem joined_single (word : List Char) : joined [word] = word := by
  simp [joined]

theorem joined_append (some : row ≠ []) (word : List Char) :
    joined (row ++ [word]) = joined row ++ ' ' :: word := by
  induction row with
  | nil => exact absurd rfl some
  | cons first row ih =>
      cases row with
      | nil => simp [joined]
      | cons second row =>
          have rest := ih (List.cons_ne_nil second row)
          simp only [joined, List.cons_append, List.intercalate_cons_cons, List.append_assoc] at rest ⊢
          rw [rest]

theorem words_joined (all : ∀ w ∈ row, IsWord w) : words (joined row) = row := by
  induction row with
  | nil => rfl
  | cons first row ih =>
      obtain ⟨word, all⟩ := List.forall_mem_cons.mp all
      cases row with
      | nil => simpa [joined] using words_of_isWord word
      | cons second row =>
          have space : isBlank ' ' = true := by decide
          have rest := ih all
          simp only [joined] at rest ⊢
          rw [List.intercalate_cons_cons, List.append_assoc, List.singleton_append,
            words_append_blank space, words_of_isWord word, rest, List.singleton_append]

theorem newline_not_mem_joined (all : ∀ w ∈ row, IsWord w) : '\n' ∉ joined row := by
  induction row with
  | nil => simp [joined]
  | cons first row ih =>
      obtain ⟨word, all⟩ := List.forall_mem_cons.mp all
      have newline : '\n' ∉ first := by
        intro mem
        have solid := word.2 '\n' mem
        revert solid
        decide
      cases row with
      | nil => simpa [joined] using newline
      | cons second row =>
          have rest := ih all
          simp only [joined] at rest ⊢
          simp [List.intercalate_cons_cons, newline, rest]

/-! ## What wrapped lines are -/

section

variable (fits tooWide : List Char → Prop)

/-- A line was made of the words of a row one after another: with each but the first it fits. -/
def Grown (row : List (List Char)) : Prop :=
  ∀ start, start <+: row → 2 ≤ start.length → fits (joined start)

/-- Rows of words fill lines: none is empty, each fits while it grows, and the first word of the next row would
make it too wide. -/
structure Filled (rows : List (List (List Char))) : Prop where
  nonempty : ∀ row ∈ rows, row ≠ []
  grown : ∀ row ∈ rows, Grown fits row
  full : rows.IsChain fun row next => ∀ word ∈ next.head?, tooWide (joined row ++ ' ' :: word)

/-- The lines of a paragraph: an empty one if it has no words, and otherwise its words in rows that fill
lines. -/
inductive ParagraphLines (paragraph : List Char) : List (List Char) → Prop
  | blank (none : words paragraph = []) : ParagraphLines paragraph [[]]
  | filled {rows : List (List (List Char))} (some : words paragraph ≠ []) (all : rows.flatten = words paragraph)
    (filled : Filled fits tooWide rows) : ParagraphLines paragraph (rows.map joined)

/-- The lines of a text: those of its paragraphs, each for itself, in order. -/
def TextLines (text : List Char) (lines : List (List Char)) : Prop :=
  ∃ parts, List.Forall₂ (ParagraphLines fits tooWide) (text.splitOn '\n') parts ∧ lines = parts.flatten

end

section

variable {fits tooWide : List Char → Prop} {rows : List (List (List Char))}

theorem grown_single (word : List Char) : Grown fits [word] := by
  intro start within long
  have := within.length_le
  simp only [List.length_cons, List.length_nil] at this
  omega

theorem Grown.concat {word : List Char} (grown : Grown fits row) (still : fits (joined (row ++ [word]))) :
    Grown fits (row ++ [word]) := by
  intro start within long
  rcases List.prefix_concat_iff.mp within with rfl | shorter
  · exact still
  · exact grown start shorter long

namespace Filled

theorem single (some : row ≠ []) (grown : Grown fits row) : Filled fits tooWide [row] where
  nonempty := by simpa using some
  grown := by simpa using grown
  full := .singleton row

theorem cons {word : List Char} (rest : Filled fits tooWide rows) (starts : rows.flatten = word :: ws)
    (some : row ≠ []) (grown : Grown fits row) (wide : tooWide (joined row ++ ' ' :: word)) :
    Filled fits tooWide (row :: rows) where
  nonempty := List.forall_mem_cons.mpr ⟨some, rest.nonempty⟩
  grown := List.forall_mem_cons.mpr ⟨grown, rest.grown⟩
  full := by
    cases rows with
    | nil => simp at starts
    | cons next rows =>
        refine .cons_cons ?_ rest.full
        cases next with
        | nil => exact absurd rfl (rest.nonempty [] List.mem_cons_self)
        | cons first next =>
            rw [List.flatten_cons, List.cons_append, List.cons.injEq] at starts
            simpa [starts.1] using wide

theorem tail (filled : Filled fits tooWide (row :: rows)) : Filled fits tooWide rows where
  nonempty := (List.forall_mem_cons.mp filled.nonempty).2
  grown := (List.forall_mem_cons.mp filled.grown).2
  full := filled.full.tail

/-- Rows that are filled start with a word, as long as there are any. -/
theorem exists_word (filled : Filled fits tooWide (row :: rows)) : ∃ word more, row = word :: more :=
  List.exists_cons_of_ne_nil (filled.nonempty row List.mem_cons_self)

theorem eq_nil (filled : Filled fits tooWide rows) (none : rows.flatten = []) : rows = [] := by
  cases rows with
  | nil => rfl
  | cons row rows =>
      obtain ⟨word, more, rfl⟩ := filled.exists_word
      simp at none

end Filled

end

/-! ## Filling lines -/

section

variable {tooWide : List Char → Except ε Bool} {rows : List (List (List Char))} {lines : List (List Char)}

theorem fillLines_cons (line word : List Char) (ws : List (List Char)) :
    fillLines tooWide line (word :: ws) = tooWide (line ++ ' ' :: word) >>= fun wide =>
      if wide then (fillLines tooWide word ws).map (line :: ·)
      else fillLines tooWide (line ++ ' ' :: word) ws := by
  rw [fillLines]
  cases tooWide (line ++ ' ' :: word) with
  | error e => rfl
  | ok wide => cases wide <;> cases fillLines tooWide word ws <;> rfl

theorem exists_fillLines (tests : ∀ line, ∃ wide, tooWide line = .ok wide) (line : List Char)
    (ws : List (List Char)) : ∃ lines, fillLines tooWide line ws = .ok lines := by
  induction ws generalizing line with
  | nil => exact ⟨[line], rfl⟩
  | cons word ws ih =>
      obtain ⟨wide, tested⟩ := tests (line ++ ' ' :: word)
      rw [fillLines_cons, tested]
      cases wide with
      | true =>
          obtain ⟨lines, made⟩ := ih word
          exact ⟨line :: lines, congrArg (Except.map (line :: ·)) made⟩
      | false => exact ih (line ++ ' ' :: word)

/-- Rows that fill lines, by a test that may fail. -/
abbrev FilledBy (tooWide : List Char → Except ε Bool) (rows : List (List (List Char))) : Prop :=
  Filled (tooWide · = .ok false) (tooWide · = .ok true) rows

/-- What is made of a row and the words after it fills lines. -/
theorem filled_of_fillLines (some : row ≠ []) (grown : Grown (tooWide · = .ok false) row)
    (made : fillLines tooWide (joined row) ws = .ok lines) :
    ∃ rows, FilledBy tooWide rows ∧ rows.flatten = row ++ ws ∧ lines = rows.map joined := by
  -- The row at hand fits throughout: a word comes to it only if the test says so.
  induction ws generalizing row lines with
  | nil =>
      obtain rfl := Except.ok.inj made
      exact ⟨[row], .single some grown, by simp, rfl⟩
  | cons word ws ih =>
      rw [fillLines_cons] at made
      cases tested : tooWide (joined row ++ ' ' :: word) with
      | error e => simp [tested, bind, Except.bind] at made
      | ok wide =>
          rw [tested] at made
          cases wide with
          | true =>
              have later : ∃ rest, fillLines tooWide (joined [word]) ws = .ok rest ∧ lines = joined row :: rest := by
                rw [joined_single]
                cases filled : fillLines tooWide word ws with
                | error e => simp [filled, bind, Except.bind, Except.map] at made
                | ok rest =>
                    rw [filled] at made
                    exact ⟨rest, rfl, (Except.ok.inj made).symm⟩
              obtain ⟨rest, later, rfl⟩ := later
              obtain ⟨rows, filled, all, rfl⟩ := ih (List.cons_ne_nil word []) (grown_single word) later
              exact ⟨row :: rows, filled.cons all some grown tested, by simp [all], rfl⟩
          | false =>
              rw [← joined_append some] at tested
              have more : fillLines tooWide (joined (row ++ [word])) ws = .ok lines := by
                rw [joined_append some]
                exact made
              obtain ⟨rows, filled, all, rfl⟩ := ih (by simp) (grown.concat tested) more
              exact ⟨rows, filled, by simpa using all, rfl⟩

/-- A start of the first of some rows that fill lines, and the words after it, make those lines. -/
theorem fillLines_of_filled {more : List (List Char)} (some : row ≠ [])
    (filled : FilledBy tooWide ((row ++ more) :: rows)) :
    fillLines tooWide (joined row) (more ++ rows.flatten) = .ok (((row ++ more) :: rows).map joined) := by
  induction words : more ++ rows.flatten generalizing row more rows with
  | nil =>
      obtain ⟨rfl, none⟩ := List.append_eq_nil_iff.mp words
      rw [filled.tail.eq_nil none, List.append_nil]
      rfl
  | cons word ws ih =>
      cases more with
      | cons next more =>
          -- the word still belongs to the row
          obtain ⟨rfl, others⟩ := List.cons.inj words
          have again : row ++ next :: more = (row ++ [next]) ++ more := by simp
          rw [again] at filled ⊢
          have fits : tooWide (joined (row ++ [next])) = .ok false := by
            refine filled.grown _ List.mem_cons_self (row ++ [next]) (List.prefix_append _ _) ?_
            have := List.length_pos_iff.mpr some
            simp only [List.length_append, List.length_cons, List.length_nil]
            omega
          rw [fillLines_cons, ← joined_append some, fits]
          exact ih (by simp) filled others
      | nil =>
          -- the row is full, and the word starts the next one
          rw [List.append_nil] at filled ⊢
          cases rows with
          | nil => simp at words
          | cons next rows =>
              obtain ⟨first, more, rfl⟩ := filled.tail.exists_word
              obtain ⟨rfl, others⟩ := List.cons.inj words
              have wide : tooWide (joined row ++ ' ' :: first) = .ok true :=
                (List.isChain_cons_cons.mp filled.full).1 first rfl
              have later := ih (List.cons_ne_nil first []) filled.tail others
              rw [joined_single] at later
              rw [fillLines_cons, wide]
              exact congrArg (Except.map (joined row :: ·)) later

/-! ## Paragraphs -/

theorem wrapParagraph_eq_ok_iff : wrapParagraph tooWide paragraph = .ok lines ↔
    ParagraphLines (tooWide · = .ok false) (tooWide · = .ok true) paragraph lines := by
  unfold wrapParagraph
  constructor
  · intro made
    split at made
    case h_1 none =>
      obtain rfl := Except.ok.inj made
      exact .blank none
    case h_2 word ws split =>
      rw [← joined_single word] at made
      obtain ⟨rows, filled, all, rfl⟩ := filled_of_fillLines (List.cons_ne_nil word []) (grown_single word) made
      exact .filled (by simp [split]) (by simpa [split] using all) filled
  · intro is
    cases is with
    | blank none => rw [none]; rfl
    | @filled rows some all filled =>
        cases rows with
        | nil => exact absurd all.symm some
        | cons row rows =>
            obtain ⟨word, more, rfl⟩ := filled.exists_word
            have made : fillLines tooWide (joined [word]) (more ++ rows.flatten) = _ :=
              fillLines_of_filled (List.cons_ne_nil word []) filled
            rw [joined_single] at made
            rw [← all]
            exact made

theorem exists_wrapParagraph (tests : ∀ line, ∃ wide, tooWide line = .ok wide) (paragraph : List Char) :
    ∃ lines, wrapParagraph tooWide paragraph = .ok lines := by
  unfold wrapParagraph
  split
  · exact ⟨_, rfl⟩
  · exact exists_fillLines tests _ _

theorem wrapParagraphs_cons (paragraph : List Char) (rest : List (List Char)) :
    wrapParagraphs tooWide (paragraph :: rest) = wrapParagraph tooWide paragraph >>= fun lines =>
      (wrapParagraphs tooWide rest).map (lines ++ ·) := by
  rw [wrapParagraphs]
  cases wrapParagraph tooWide paragraph with
  | error e => rfl
  | ok lines => cases wrapParagraphs tooWide rest <;> rfl

theorem wrapParagraphs_eq_ok_iff {paragraphs : List (List Char)} : wrapParagraphs tooWide paragraphs = .ok lines ↔
    ∃ parts, List.Forall₂ (ParagraphLines (tooWide · = .ok false) (tooWide · = .ok true)) paragraphs parts ∧
      lines = parts.flatten := by
  induction paragraphs generalizing lines with
  | nil => simp [wrapParagraphs, pure, Except.pure, eq_comm]
  | cons paragraph rest ih =>
      rw [wrapParagraphs_cons]
      constructor
      · intro made
        cases first : wrapParagraph tooWide paragraph with
        | error e => simp [first, bind, Except.bind] at made
        | ok part =>
            cases others : wrapParagraphs tooWide rest with
            | error e => simp [first, others, bind, Except.bind, Except.map] at made
            | ok more =>
                rw [first, others] at made
                obtain rfl := Except.ok.inj made
                obtain ⟨parts, each, rfl⟩ := ih.mp others
                exact ⟨part :: parts, .cons (wrapParagraph_eq_ok_iff.mp first) each, rfl⟩
      · rintro ⟨_, each, rfl⟩
        cases each with
        | cons first each =>
            rw [wrapParagraph_eq_ok_iff.mpr first, ih.mpr ⟨_, each, rfl⟩]
            rfl

theorem exists_wrapParagraphs (tests : ∀ line, ∃ wide, tooWide line = .ok wide) (paragraphs : List (List Char)) :
    ∃ lines, wrapParagraphs tooWide paragraphs = .ok lines := by
  induction paragraphs with
  | nil => exact ⟨[], rfl⟩
  | cons paragraph rest ih =>
      obtain ⟨part, first⟩ := exists_wrapParagraph tests paragraph
      obtain ⟨more, others⟩ := ih
      exact ⟨part ++ more, by rw [wrapParagraphs_cons, first, others]; rfl⟩

end

/-! ## Wrapping by measured widths -/

variable {width : List Char → Except ε Float} {maxWidth : Float} {text : List Char}

/-- Whether a line is wider than `maxWidth`. -/
def wider (width : List Char → Except ε Float) (maxWidth : Float) (line : List Char) : Except ε Bool :=
  (width line).map fun w => maxWidth < w

theorem wrap_of_room (some : text ≠ []) (room : ¬ maxWidth ≤ 0) :
    wrap width maxWidth text = wrapParagraphs (wider width maxWidth) (text.splitOn '\n') := by
  have test : (fun line => do pure (decide (maxWidth < (← width line)))) = wider width maxWidth := by
    funext line
    rw [wider]
    cases width line <;> rfl
  rw [wrap, if_neg (by simp [some, room]), test]

/-- What wrapping gives: the paragraphs themselves where there is nothing to wrap or no room, and else lines that
the measured widths allow. -/
theorem wrap_eq_ok_iff {lines : List (List Char)} : wrap width maxWidth text = .ok lines ↔
    if text = [] ∨ maxWidth ≤ 0 then lines = text.splitOn '\n'
    else TextLines (wider width maxWidth · = .ok false) (wider width maxWidth · = .ok true) text lines := by
  split
  case isTrue plain =>
    rw [wrap, if_pos plain]
    exact ⟨fun made => (Except.ok.inj made).symm, fun same => congrArg Except.ok same.symm⟩
  case isFalse roomy =>
    obtain ⟨some, room⟩ := not_or.mp roomy
    rw [wrap_of_room some room, wrapParagraphs_eq_ok_iff, TextLines]

theorem exists_wrap (measured : ∀ line, ∃ w, width line = .ok w) (maxWidth : Float) (text : List Char) :
    ∃ lines, wrap width maxWidth text = .ok lines := by
  by_cases plain : text = [] ∨ maxWidth ≤ 0
  · exact ⟨text.splitOn '\n', if_pos plain⟩
  · obtain ⟨some, room⟩ := not_or.mp plain
    rw [wrap_of_room some room]
    refine exists_wrapParagraphs (fun line => ?_) _
    obtain ⟨w, hw⟩ := measured line
    exact ⟨decide (maxWidth < w), by rw [wider, hw]; rfl⟩

/-- Text that has room is wrapped, whatever the widths of lines are, into the one row of lines that keeps its
words in order, paragraph by paragraph, and puts a word on the line before it exactly if it fits there. -/
theorem wrap_greedy {measure : List Char → Float} (measured : ∀ line, width line = .ok (measure line))
    (room : 0 < maxWidth) (some : text ≠ []) :
    ∃ lines, wrap width maxWidth text = .ok lines ∧
      ∀ other, TextLines (¬ maxWidth < measure ·) (maxWidth < measure ·) text other ↔ other = lines := by
  obtain ⟨lines, made⟩ := exists_wrap (fun line => ⟨measure line, measured line⟩) maxWidth text
  refine ⟨lines, made, fun other => ?_⟩
  have fits : (¬ maxWidth < measure ·) = (wider width maxWidth · = .ok false) := by
    funext line
    simp [wider, measured line, Except.map]
  have wide : (maxWidth < measure ·) = (wider width maxWidth · = .ok true) := by
    funext line
    simp [wider, measured line, Except.map]
  have wraps : wrap width maxWidth text = .ok other ↔ _ := wrap_eq_ok_iff
  rw [if_neg (not_or.mpr ⟨some, Decimal.not_le_of_lt room⟩), made, Except.ok.injEq] at wraps
  rw [fits, wide, ← wraps, eq_comm]

/-- A measure that finds nothing too wide but lines of three characters. -/
def threeIsWide (line : List Char) : Float :=
  if line.length = 3 then 9 else 1

/-- A word that makes a line too wide may fit with another one after it, and a paragraph may be empty. -/
theorem threeIsWide_greedy : ∃ lines,
    wrap (fun line => (.ok (threeIsWide line) : Except Unit Float)) 4 "a b cc\n\n d ee".toList = .ok lines ∧
    lines = ["a".toList, "b cc".toList, [], "d ee".toList] ∧
    ∀ other, TextLines (¬ 4 < threeIsWide ·) (4 < threeIsWide ·) "a b cc\n\n d ee".toList other ↔
      other = lines := by
  have measured : ∀ line, (fun line => (.ok (threeIsWide line) : Except Unit Float)) line = .ok (threeIsWide line) :=
    fun _ => rfl
  have room : (0 : Float) < 4 := by decide
  have some : "a b cc\n\n d ee".toList ≠ [] := by decide
  obtain ⟨lines, made, only⟩ := wrap_greedy measured room some
  refine ⟨lines, made, ?_, only⟩
  have run : wrap (fun line => (.ok (threeIsWide line) : Except Unit Float)) 4 "a b cc\n\n d ee".toList =
      .ok ["a".toList, "b cc".toList, [], "d ee".toList] := by decide +kernel
  exact Except.ok.inj (made.symm.trans run)

/-! ## Wrapping again -/

section

variable {fits tooWide : List Char → Prop} {lines : List (List Char)}

theorem ParagraphLines.ne_nil (are : ParagraphLines fits tooWide paragraph lines) : lines ≠ [] := by
  cases are with
  | blank none => simp
  | filled some all filled =>
      intro none
      rw [List.map_eq_nil_iff] at none
      exact some (by rw [← all, none]; rfl)

/-- A line of a paragraph is a paragraph that fills one line. -/
theorem ParagraphLines.single (are : ParagraphLines fits tooWide paragraph lines) (mem : line ∈ lines) :
    ParagraphLines fits tooWide line [line] ∧ '\n' ∉ line := by
  cases are with
  | blank none =>
      obtain rfl := List.mem_singleton.mp mem
      exact ⟨.blank rfl, List.not_mem_nil⟩
  | @filled rows some all filled =>
      obtain ⟨row, hr, rfl⟩ := List.mem_map.mp mem
      have solid : ∀ w ∈ row, IsWord w := fun w hw =>
        isWord_of_mem_words (all ▸ List.mem_flatten.mpr ⟨row, hr, hw⟩)
      have words := words_joined solid
      have here : Filled fits tooWide [row] := .single (filled.nonempty row hr) (filled.grown row hr)
      have one : ParagraphLines fits tooWide (joined row) ([row].map joined) :=
        .filled (by rw [words]; exact filled.nonempty row hr) (by rw [words, List.flatten_singleton]) here
      exact ⟨one, newline_not_mem_joined solid⟩

theorem singles_of_parts {paragraphs : List (List Char)} {parts : List (List (List Char))}
    (each : List.Forall₂ (ParagraphLines fits tooWide) paragraphs parts) :
    ∀ line ∈ parts.flatten, ParagraphLines fits tooWide line [line] ∧ '\n' ∉ line := by
  induction each with
  | nil => simp
  | cons first _ ih =>
      intro line mem
      rw [List.flatten_cons, List.mem_append] at mem
      rcases mem with here | later
      · exact first.single here
      · exact ih line later

theorem TextLines.ne_nil (are : TextLines fits tooWide text lines) : lines ≠ [] := by
  obtain ⟨parts, each, rfl⟩ := are
  cases split : text.splitOn '\n' with
  | nil => exact absurd split (List.splitOn_ne_nil _ _)
  | cons paragraph rest =>
      rw [split] at each
      cases each with
      | cons first _ => simp [first.ne_nil]

/-- The lines of a text are the paragraphs of a text whose lines they are. -/
theorem TextLines.again (are : TextLines fits tooWide text lines) :
    (['\n'].intercalate lines).splitOn '\n' = lines ∧ TextLines fits tooWide (['\n'].intercalate lines) lines := by
  have some := are.ne_nil
  obtain ⟨parts, each, rfl⟩ := are
  have one := singles_of_parts each
  have split : (['\n'].intercalate parts.flatten).splitOn '\n' = parts.flatten :=
    List.splitOn_intercalate '\n' (fun line mem => (one line mem).2) some
  refine ⟨split, parts.flatten.map ([·]), ?_, (List.flatMap_singleton' parts.flatten).symm⟩
  rw [split, List.forall₂_map_right_iff, List.forall₂_same]
  exact fun line mem => (one line mem).1

/-- Wrapping the lines of a wrapped text again gives the same lines, or fails where the text already did; and
where every width can be measured it does not fail. -/
theorem wrap_again (width : List Char → Except ε Float) (maxWidth : Float) (text : List Char) :
    (wrap width maxWidth text >>= fun lines => wrap width maxWidth (['\n'].intercalate lines)) =
        wrap width maxWidth text ∧
      ((∀ line, ∃ w, width line = .ok w) → ∃ lines, wrap width maxWidth text = .ok lines) := by
  refine ⟨?_, fun measured => exists_wrap measured maxWidth text⟩
  cases made : wrap width maxWidth text with
  | error e => rfl
  | ok lines =>
      show wrap width maxWidth (['\n'].intercalate lines) = .ok lines
      rw [wrap_eq_ok_iff] at made ⊢
      split at made
      case isTrue plain =>
        rw [made, List.intercalate_splitOn, if_pos plain]
      case isFalse roomy =>
        obtain ⟨split, again⟩ := made.again
        split
        · exact split.symm
        · exact again

theorem threeIsWide_again :
    (∀ line, ∃ w, (.ok (threeIsWide line) : Except Unit Float) = .ok w) ∧
    ∃ lines, wrap (fun line => (.ok (threeIsWide line) : Except Unit Float)) 4 "a b cc\n\n d ee".toList = .ok lines ∧
      wrap (fun line => (.ok (threeIsWide line) : Except Unit Float)) 4 (['\n'].intercalate lines) = .ok lines := by
  have measured : ∀ line, ∃ w, (.ok (threeIsWide line) : Except Unit Float) = .ok w := fun _ => ⟨_, rfl⟩
  obtain ⟨again, wraps⟩ := wrap_again (fun line => (.ok (threeIsWide line) : Except Unit Float)) 4
    "a b cc\n\n d ee".toList
  obtain ⟨lines, made⟩ := wraps measured
  rw [made] at again
  exact ⟨measured, lines, made, again⟩

end

end SvgForm.Text
