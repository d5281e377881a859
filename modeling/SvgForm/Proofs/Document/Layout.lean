import SvgForm.Proofs.Document.Content
import SvgForm.Proofs.Text.Wrap
import SvgForm.Render.Write
/-! # Texts laid out

A text that is written into an element becomes all there is in it, whatever was there before: the text itself, or
a row of spans, one for each line. What a reader then sees of the element are those lines.
-/

namespace SvgForm.Document

variable {d d' : Document} {h x : Handle}

/-! ## Setting a text -/

theorem element_setText (hh : h < d.elements.size) (text : String) :
    (d.setText h text).element x = if x = h then { d.element x with text } else d.element x := by
  have := element_mapElement (x := x) (fun e => { e with text }) hh
  simpa [setText, mapElement, element] using this

theorem size_setText (d : Document) (h : Handle) (text : String) :
    (d.setText h text).elements.size = d.elements.size :=
  Array.size_modify ..

theorem text_setText (hh : h < d.elements.size) (text : String) :
    ((d.setText h text).element h).text = text := by
  rw [element_setText hh, if_pos rfl]

theorem displayText_setText (hd : d.WellFormed) (hh : h < d.elements.size) (text : String) :
    (d.setText h text).displayText h = trimmed text := by
  have nothing := below_setText_self hd hh text
  have whole : (d.setText h text).text h = text := by
    rw [Document.text, text_setText hh, nothing, textOf]
    simp
  simp only [displayText, lines, children, nothing, Forest.roots, List.any_nil, Bool.false_eq_true,
    if_false, whole, lineOf]
  by_cases blank : trimmed text = ""
  · simp [blank]
  · simp [blank]

/-! ## Appending elements -/

theorem element_appendElement (e : Xml.Element) :
    (d.appendElement h e).element x = if x = d.elements.size then e else d.element x := by
  simp only [element, appendElement, Array.getElem?_push]
  split <;> rfl

/-- Elements were made and are the last children of `h`, in the order in which they were made. None of them has
children, and those that were there before are what they were. -/
structure Extended (h : Handle) (d : Document) (made : List Xml.Element) (d' : Document) : Prop where
  wellFormed : d'.WellFormed
  size : d'.elements.size = d.elements.size + made.length
  old : ∀ x < d.elements.size, d'.element x = d.element x
  new : (List.range' d.elements.size made.length).map d'.element = made
  below : d'.below h = (d.below h).append (.ofRoots (List.range' d.elements.size made.length))
  childless : ∀ x, d.elements.size ≤ x → d'.below x = .nil

namespace Extended

variable {made : List Xml.Element}

theorem nothing (hd : d.WellFormed) : Extended h d [] d where
  wellFormed := hd
  size := rfl
  old := fun _ _ => rfl
  new := rfl
  below := (Forest.append_nil _).symm
  childless := fun _ outside => below_eq_nil hd outside

theorem concat (hh : h < d.elements.size) (extended : Extended h d made d') (e : Xml.Element) :
    Extended h d (made ++ [e]) (d'.appendElement h e) := by
  have size := extended.size
  have grows : d.elements.size ≤ d'.elements.size := by omega
  have here : h < d'.elements.size := Nat.lt_of_lt_of_le hh grows
  have numbers : List.range' d.elements.size (made ++ [e]).length =
      List.range' d.elements.size made.length ++ [d'.elements.size] := by
    rw [List.length_append, List.length_singleton, ← List.range'_append_1, size]
    rfl
  refine ⟨extended.wellFormed.appendElement here e, ?_, fun x old => ?_, ?_, ?_, fun x outside => ?_⟩
  · rw [size_appendElement, size, List.length_append, List.length_singleton, Nat.add_assoc]
  · rw [element_appendElement, if_neg (Nat.ne_of_lt (Nat.lt_of_lt_of_le old grows)), extended.old x old]
  · rw [numbers, List.map_append, List.map_singleton, element_appendElement, if_pos rfl]
    congr 1
    refine Eq.trans (List.map_congr_left fun x mem => ?_) extended.new
    have before := (List.mem_range'_1.mp mem).2
    rw [← size] at before
    rw [element_appendElement, if_neg (Nat.ne_of_lt before)]
  · rw [below_appendElement_eq extended.wellFormed here, if_neg (Nat.ne_of_lt here), if_pos rfl, extended.below,
      Forest.append_assoc, ← Forest.ofRoots_append, numbers]
  · rw [below_appendElement_eq extended.wellFormed here, extended.childless x outside,
      if_neg (Nat.ne_of_gt (Nat.lt_of_lt_of_le hh outside))]
    split <;> rfl

end Extended

/-! ## Rows of spans -/

/-- The span of a line: anchored at `ax` and `dy` below the line before, where these are given. -/
def lineSpan (ax dy : Option String) (line : List Char) : Xml.Element where
  name := Xml.expanded Xml.svgNamespace "tspan"
  attributes := (ax.map ("x", ·)).toList ++ (dy.map ("dy", ·)).toList
  text := if line = [] then "\u00a0" else .ofList line

theorem appendLine_eq (h : Handle) (ax dy : Option String) (d : Document) (line : List Char) :
    appendLine h ax dy d line = d.appendElement h (lineSpan ax dy line) := by
  cases ax <;> cases dy <;> rfl

theorem Extended.foldl {made : List Xml.Element} (hh : h < d.elements.size) (extended : Extended h d made d')
    (ax dy : Option String) (lines : List (List Char)) :
    Extended h d (made ++ lines.map (lineSpan ax dy)) (lines.foldl (appendLine h ax dy) d') := by
  induction lines generalizing made d' with
  | nil => simpa using extended
  | cons line lines ih =>
      have next := extended.concat hh (lineSpan ax dy line)
      rw [← appendLine_eq] at next
      have all := ih next
      rw [List.append_assoc, List.singleton_append] at all
      exact all

/-- The spans of lines that are `dy` apart. -/
def lineSpans (ax : Option String) (dy : String) : List (List Char) → List Xml.Element
  | [] => []
  | first :: rest => lineSpan ax none first :: rest.map (lineSpan ax (some dy))

theorem extended_setLines (hd : d.WellFormed) (hh : h < d.elements.size) (first : List Char)
    (rest : List (List Char)) (spacing : String) :
    Extended h (d.clear h) (lineSpans (d.get? h "x") spacing (first :: rest)) (d.setLines h first rest spacing) := by
  have inside : h < (d.clear h).elements.size := by
    rw [clear, size_setText]
    exact hh
  have one := (Extended.nothing (h := h) (hd.setText h "")).concat inside (lineSpan (d.get? h "x") none first)
  rw [← appendLine_eq] at one
  exact one.foldl inside (d.get? h "x") (some spacing) rest

/-! ## What the spans show -/

/-- Lines as they show where each has a span of its own: without no-break spaces, and those that are empty then do
not count. -/
def shownLines (lines : List (List Char)) : List String :=
  ((lines.map fun line => line.filter (· ≠ '\u00a0')).filter (· ≠ [])).map .ofList

theorem dropNoBreak_ofList (line : List Char) :
    dropNoBreak (.ofList line) = .ofList (line.filter (· ≠ '\u00a0')) := by
  rw [dropNoBreak, Text.onChars, String.toList_ofList]

theorem shownLines_cons (line : List Char) (lines : List (List Char)) :
    shownLines (line :: lines) = shownLines [line] ++ shownLines lines := by
  rw [shownLines, shownLines, shownLines, ← List.map_append, ← List.filter_append, ← List.map_append,
    List.singleton_append]

theorem shownLines_singleton (line : List Char) : shownLines [line] =
    if line.filter (· ≠ '\u00a0') = [] then [] else [.ofList (line.filter (· ≠ '\u00a0'))] := by
  rw [shownLines, List.map_singleton]
  generalize line.filter (· ≠ '\u00a0') = visible
  cases visible <;> rfl

/-- The lines of an element without children that stands in a row. -/
def rowLines (e : Xml.Element) : List String :=
  (if Xml.localName e.name = "tspan" ∧ dropNoBreak e.text ≠ "" then [dropNoBreak e.text] else []) ++ lineOf e.tail

theorem rowLines_lineSpan (ax dy : Option String) (line : List Char) :
    rowLines (lineSpan ax dy line) = shownLines [line] := by
  have called : Xml.localName (Xml.expanded Xml.svgNamespace "tspan") = "tspan" := by decide
  have blank : lineOf "" = [] := by decide
  by_cases empty : line = []
  · subst empty
    have nothing : dropNoBreak "\u00a0" = "" ∧ shownLines [[]] = [] := by decide
    simp [rowLines, lineSpan, nothing, blank]
  · rw [rowLines, lineSpan, if_neg empty, dropNoBreak_ofList, shownLines_singleton, blank, List.append_nil]
    generalize line.filter (· ≠ '\u00a0') = visible
    simp [called, String.ofList_eq_empty_iff]

theorem rowLines_map_lineSpan (ax dy : Option String) (lines : List (List Char)) :
    (lines.map (lineSpan ax dy)).flatMap rowLines = shownLines lines := by
  induction lines with
  | nil => rfl
  | cons line lines ih => rw [List.map_cons, List.flatMap_cons, rowLines_lineSpan, ih, ← shownLines_cons]

theorem rowLines_lineSpans (ax : Option String) (dy : String) (lines : List (List Char)) :
    (lineSpans ax dy lines).flatMap rowLines = shownLines lines := by
  cases lines with
  | nil => rfl
  | cons first rest =>
      rw [lineSpans, List.flatMap_cons, rowLines_lineSpan, rowLines_map_lineSpan, ← shownLines_cons]

theorem spanLines_ofRoots (d : Document) (l : List Handle) :
    d.spanLines (.ofRoots l) = (l.map d.element).flatMap rowLines := by
  induction l with
  | nil => rfl
  | cons x l ih =>
      rw [List.map_cons, List.flatMap_cons, ← ih, rowLines, Forest.ofRoots, spanLines]
      by_cases span : Xml.localName (d.element x).name = "tspan"
      · simp [isSpan, tag, textOf, span]
      · simp [isSpan, tag, span]

/-! ## Writing a text -/

/-- There is nothing in an element but the spans of lines that are `dy` apart. -/
structure LaidOut (d : Document) (h : Handle) (ax : Option String) (dy : String) (lines : List (List Char)) : Prop
    where
  text : (d.element h).text = ""
  spans : (d.children h).map d.element = lineSpans ax dy lines
  childless : ∀ c ∈ d.children h, d.children c = []
  below : d.below h = .ofRoots (d.children h)

theorem laidOut_setLines (hd : d.WellFormed) (hh : h < d.elements.size) (first : List Char)
    (rest : List (List Char)) (spacing : String) :
    (d.setLines h first rest spacing).LaidOut h (d.get? h "x") spacing (first :: rest) := by
  have laid := extended_setLines hd hh first rest spacing
  have below := laid.below
  rw [clear, below_setText_self hd hh, Forest.append] at below
  have inside : h < (d.clear h).elements.size := by
    rw [clear, size_setText]
    exact hh
  refine ⟨?_, ?_, ?_, ?_⟩
  · rw [laid.old h inside, clear, text_setText hh]
  · rw [children, below, Forest.roots_ofRoots]
    exact laid.new
  · intro c mem
    rw [children, below, Forest.roots_ofRoots] at mem
    rw [children, laid.childless c (List.mem_range'_1.mp mem).1, Forest.roots]
  · rw [children, below, Forest.roots_ofRoots]

theorem LaidOut.displayText {ax : Option String} {dy : String} {lines : List (List Char)}
    (laid : d.LaidOut h ax dy lines) (some : lines ≠ []) : d.displayText h = "\n".intercalate (shownLines lines) := by
  have spans : (d.children h).any d.isSpan = true := by
    have through : (d.children h).any d.isSpan =
        ((d.children h).map d.element).any fun e => Xml.localName e.name = "tspan" := by
      rw [List.any_map]
      rfl
    have called : Xml.localName (Xml.expanded Xml.svgNamespace "tspan") = "tspan" := by decide
    rw [through, laid.spans]
    cases lines with
    | nil => exact absurd rfl some
    | cons first rest => simp [lineSpans, lineSpan, called]
  have blank : lineOf "" = [] := by decide
  rw [Document.displayText, Document.lines, if_pos spans, laid.text, blank, List.nil_append, laid.below,
    spanLines_ofRoots, laid.spans, rowLines_lineSpans]

variable {ε : Type} {g : FontGauge ε} {text : String} {width : Option Float}

theorem exists_linesToWrite {font : Font} (measured : ∀ line, ∃ w, g.textWidth font.family font.size line = .ok w)
    (text : String) (width : Option Float) : ∃ lines, linesToWrite g font text width = .ok lines := by
  unfold linesToWrite
  split
  case h_1 w _ => exact Text.exists_wrap measured w text.toList
  case h_2 => exact ⟨_, rfl⟩

theorem layText_single {lines : List (List Char)} (parted : linesToWrite g (d.font h) text width = .ok lines)
    (single : lines.length ≤ 1) : d.layText g h text width = .ok (d.setText h text) := by
  rw [layText, parted]
  match lines with
  | [] => rfl
  | [_] => rfl
  | _ :: _ :: _ => simp at single

theorem layText_several {first second : List Char} {rest : List (List Char)} {extent : FontExtent}
    (parted : linesToWrite g (d.font h) text width = .ok (first :: second :: rest))
    (sized : g.extent (d.font h).family (d.font h).size = .ok extent) :
    d.layText g h text width = .ok (d.setLines h first (second :: rest)
      (.ofList (Decimal.compact (extent.lineHeight (d.font h).size lineGap)))) := by
  rw [layText, parted]
  simp only [bind, Except.bind, sized]
  rfl

/-- The lines of a text in a font: those between its newlines, or where a width other than nought is given those
into which it is wrapped. -/
inductive LinesOf (g : FontGauge ε) (font : Font) (text : String) : Option Float → List (List Char) → Prop
  | unbounded : LinesOf g font text none (text.toList.splitOn '\n')
  | nought {w : Float} (zero : (w == 0) = true) : LinesOf g font text (some w) (text.toList.splitOn '\n')
  | wrapped {w : Float} {lines : List (List Char)} (bounded : (w == 0) = false)
      (parted : Text.wrap (fun line => g.textWidth font.family font.size line) w text.toList = .ok lines) :
      LinesOf g font text (some w) lines

theorem linesOf_linesToWrite {font : Font} {lines : List (List Char)}
    (parted : linesToWrite g font text width = .ok lines) : LinesOf g font text width lines := by
  cases width with
  | none =>
      obtain rfl := Except.ok.inj parted
      exact .unbounded
  | some w =>
      cases nought : w == 0 with
      | true =>
          rw [linesToWrite, Option.filter_some, nought] at parted
          obtain rfl := Except.ok.inj parted
          exact .nought nought
      | false =>
          rw [linesToWrite, Option.filter_some, nought] at parted
          exact .wrapped nought parted

/-- A text is written into an element whose font can be measured. Of one line, it is all there is in the element
and shows without the blanks around it. Otherwise there is nothing in the element but the spans of its lines, and
they show without no-break spaces, as far as they are not empty then. -/
theorem layText_content (hd : d.Reachable) (hh : h < d.elements.size)
    (sized : ∃ extent, g.extent (d.font h).family (d.font h).size = .ok extent)
    (measured : ∀ line, ∃ w, g.textWidth (d.font h).family (d.font h).size line = .ok w)
    (text : String) (width : Option Float) :
    ∃ lines d', LinesOf g (d.font h) text width lines ∧ d.layText g h text width = .ok d' ∧
      if lines.length ≤ 1 then
        d'.children h = [] ∧ (d'.element h).text = text ∧ d'.displayText h = trimmed text
      else
        (∃ dy, d'.LaidOut h (d.get? h "x") dy lines) ∧ d'.displayText h = "\n".intercalate (shownLines lines) := by
  have hwf := hd.wellFormed
  obtain ⟨lines, parted⟩ := exists_linesToWrite measured text width
  obtain ⟨extent, sized⟩ := sized
  have parts := linesOf_linesToWrite parted
  by_cases single : lines.length ≤ 1
  · refine ⟨lines, _, parts, layText_single parted single, ?_⟩
    rw [if_pos single, children, below_setText_self hwf hh]
    exact ⟨rfl, text_setText hh text, displayText_setText hwf hh text⟩
  · obtain _ | ⟨first, _ | ⟨second, rest⟩⟩ := lines
    · simp at single
    · simp at single
    · have laid := laidOut_setLines hwf hh first (second :: rest)
        (.ofList (Decimal.compact (extent.lineHeight (d.font h).size lineGap)))
      refine ⟨_, _, parts, layText_several parted sized, ?_⟩
      rw [if_neg single]
      exact ⟨⟨_, laid⟩, laid.displayText (List.cons_ne_nil first _)⟩

/-- A text with an anchor and mixed content: text of its own, a span with text after it, and a group. -/
def badge : Document :=
  ofTree (.node { name := "svg" } (.node { name := "text", attributes := [("x", "5")], text := "Old" }
    (.node { name := "tspan", text := "name", tail := "and" } (.ofRoots [{ name := "a", text := "link" }])
      (.ofRoots [{ name := "g", text := "more" }])) .nil) .nil)

theorem badge_content : ∃ lines d',
    LinesOf FontMetrics.typical.gauge (badge.font 1) "Dear  Ada\n\nBye" (some 40) lines ∧
    badge.layText FontMetrics.typical.gauge 1 "Dear  Ada\n\nBye" (some 40) = .ok d' ∧
    lines = ["Dear".toList, "Ada".toList, [], "Bye".toList] ∧
    (∃ dy, d'.LaidOut 1 (some "5") dy lines) ∧ d'.displayText 1 = "Dear\nAda\nBye" := by
  have sized : ∃ extent, FontMetrics.typical.gauge.extent (badge.font 1).family (badge.font 1).size = .ok extent := by
    have checked : (FontMetrics.typical.gauge.extent (badge.font 1).family (badge.font 1).size).toBool = true := by
      decide +kernel
    cases measured : FontMetrics.typical.gauge.extent (badge.font 1).family (badge.font 1).size with
    | error e => simp [measured, Except.toBool] at checked
    | ok extent => exact ⟨extent, rfl⟩
  have measured : ∀ line, ∃ w,
      FontMetrics.typical.gauge.textWidth (badge.font 1).family (badge.font 1).size line = .ok w :=
    fun _ => ⟨_, rfl⟩
  have reachable : badge.Reachable := .tree _ (by decide)
  obtain ⟨lines, d', parts, written, content⟩ :=
    layText_content reachable (by decide) sized measured "Dear  Ada\n\nBye" (some 40)
  have run : (Text.wrap (fun line => FontMetrics.typical.gauge.textWidth (badge.font 1).family (badge.font 1).size line)
      40 "Dear  Ada\n\nBye".toList).toOption = some ["Dear".toList, "Ada".toList, [], "Bye".toList] := by
    decide +kernel
  cases parts with
  | nought zero => exact absurd zero (by decide +kernel)
  | wrapped bounded parted =>
      rw [parted] at run
      obtain rfl := Option.some.inj run
      rw [if_neg (by decide)] at content
      obtain ⟨laid, shows⟩ := content
      exact ⟨_, d', .wrapped bounded parted, written, rfl, laid, shows.trans (by decide)⟩

end SvgForm.Document
