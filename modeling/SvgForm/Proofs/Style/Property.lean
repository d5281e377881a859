import SvgForm.Proofs.Document.Content
import SvgForm.Proofs.Text.Cut
import SvgForm.Proofs.Text.Trim
import SvgForm.Style
/-! # Setting a property

Declarations that are read from a style are read again from what is written of them. So a style in which a property
was set says of every other property what it said before, in the same order, and setting the property again changes
nothing.
-/

namespace SvgForm

namespace Style

variable {name value style text : List Char} {d : Declaration} {ds : List Declaration}

/-- A declaration as it can be read: there are no blanks around its parts and no semicolons in them, and the name is
not empty and has no colon. -/
structure Legible (d : Declaration) : Prop where
  named : d.1 ≠ []
  trim_name : Text.trim d.1 = d.1
  trim_value : Text.trim d.2 = d.2
  colon : ':' ∉ d.1
  semicolon_name : ';' ∉ d.1
  semicolon_value : ';' ∉ d.2

/-! ## Reading -/

theorem legible_declaration (single : ';' ∉ text) (named : (declaration text).1 ≠ []) : Legible (declaration text) := by
  rw [declaration] at named ⊢
  cases cut : Text.cutAtChar? ':' text with
  | none =>
      rw [cut] at named
      refine ⟨named, Text.trim_trim text, rfl, ?_, fun mem => single ((Text.trim_infix text).subset mem), by simp⟩
      intro mem
      obtain ⟨first, rest, rfl, fresh⟩ := List.eq_append_cons_of_mem ((Text.trim_infix text).subset mem)
      rw [Text.cutAtChar?_append fresh] at cut
      cases cut
  | some parts =>
      obtain ⟨before, after⟩ := parts
      rw [cut] at named
      have whole := Text.eq_of_cutAtChar? cut
      rw [whole, List.mem_append, List.mem_cons, not_or, not_or] at single
      exact ⟨named, Text.trim_trim before, Text.trim_trim after,
        fun mem => Text.not_mem_of_cutAtChar? cut ((Text.trim_infix before).subset mem),
        fun mem => single.1 ((Text.trim_infix before).subset mem),
        fun mem => single.2.2 ((Text.trim_infix after).subset mem)⟩

theorem legible_of_mem_declarations (mem : d ∈ declarations style) : Legible d := by
  obtain ⟨read, named⟩ := List.mem_filter.mp mem
  obtain ⟨part, inside, rfl⟩ := List.mem_map.mp read
  exact legible_declaration (Text.not_mem_of_mem_splitOn inside) (by simpa using named)

/-! ## Writing -/

/-- What is written of a declaration is read as that declaration, also after a blank. -/
theorem declaration_write (hd : Legible d) {margin : List Char} (blank : margin = [] ∨ margin = [' ']) :
    declaration (margin ++ write d) = d := by
  have fresh : ':' ∉ margin ++ d.1 := by
    rcases blank with rfl | rfl <;> simp [hd.colon]
  have parted : margin ++ write d = (margin ++ d.1) ++ ':' :: ' ' :: d.2 := by simp [write]
  have same : Text.trim (margin ++ d.1) = d.1 := by
    rcases blank with rfl | rfl
    · exact hd.trim_name
    · exact (Text.trim_cons_blank (by decide) d.1).trans hd.trim_name
  rw [declaration, parted, Text.cutAtChar?_append fresh]
  simp only [same, Text.trim_cons_blank (show Text.isBlank ' ' = true by decide), hd.trim_value]

theorem semicolon_write (hd : Legible d) : ';' ∉ write d := by
  simp [write, hd.semicolon_name, hd.semicolon_value]

/-- Declarations stand between semicolons, all but the first after a blank. -/
theorem writeAll_cons (d : Declaration) (ds : List Declaration) :
    writeAll (d :: ds) = [';'].intercalate (write d :: ds.map fun e => [' '] ++ write e) := by
  rw [writeAll]
  induction ds generalizing d with
  | nil => rfl
  | cons e ds ih =>
      rw [List.map_cons, List.map_cons, List.map_cons, List.intercalate_cons_cons, List.intercalate_cons_cons,
        ← List.map_cons, ih e]
      cases ds <;> simp [List.intercalate]

theorem splitOn_writeAll (all : ∀ e ∈ d :: ds, Legible e) :
    (writeAll (d :: ds)).splitOn ';' = write d :: ds.map fun e => [' '] ++ write e := by
  rw [writeAll_cons]
  apply List.splitOn_intercalate ';' _ (List.cons_ne_nil _ _)
  intro part mem
  rcases List.mem_cons.mp mem with rfl | later
  · exact semicolon_write (all d List.mem_cons_self)
  · obtain ⟨e, inside, rfl⟩ := List.mem_map.mp later
    have clean := semicolon_write (all e (List.mem_cons_of_mem d inside))
    simp [clean]

/-- What is written of declarations is read as those declarations. -/
theorem declarations_writeAll (all : ∀ e ∈ ds, Legible e) : declarations (writeAll ds) = ds := by
  cases ds with
  | nil => decide
  | cons d ds =>
      have first : declaration (write d) = d := declaration_write (all d List.mem_cons_self) (.inl rfl)
      have rest : (ds.map fun e => [' '] ++ write e).map declaration = ds := by
        rw [List.map_map]
        refine (List.map_congr_left fun e mem => ?_).trans ds.map_id
        exact declaration_write (all e (List.mem_cons_of_mem d mem)) (.inr rfl)
      rw [declarations, splitOn_writeAll all, List.map_cons, first, rest, List.filter_eq_self]
      intro e mem
      simpa using (all e mem).named

/-! ## Setting -/

theorem declarations_setProperty (new : Legible (name, value)) (style : List Char) :
    declarations (setProperty name value style) =
      (declarations style).filter (·.1 ≠ name) ++ [(name, value)] := by
  apply declarations_writeAll
  intro e mem
  rcases List.mem_append.mp mem with old | last
  · exact legible_of_mem_declarations (List.mem_filter.mp old).1
  · rwa [List.mem_singleton.mp last]

theorem setProperty_setProperty (new : Legible (name, value)) (style : List Char) :
    setProperty name value (setProperty name value style) = setProperty name value style := by
  rw [setProperty, declarations_setProperty new]
  simp [setProperty]

end Style

namespace Document

variable {d : Document} {h : Handle} {name value : String}

/-- The text of an element's inline style. -/
def styleText (d : Document) (h : Handle) : String :=
  (d.get? h "style").getD ""

theorem get?_setStyle (hh : h < d.elements.size) (name value : String) :
    (d.setStyle h name value).get? h "style" =
      some (.ofList (Style.setProperty name.toList value.toList (d.styleText h).toList)) := by
  rw [setStyle, get?_set hh, if_pos ⟨rfl, rfl⟩]
  rfl

/-- A style in which a property was set has the declarations that it had, but those of the property, and one of the
property after them. Setting the property again leaves the document as it is. -/
theorem declarations_setStyle (hh : h < d.elements.size) (named : name ≠ "") (trim_name : trimmed name = name)
    (colon : ':' ∉ name.toList) (semicolon_name : ';' ∉ name.toList) (trim_value : trimmed value = value)
    (semicolon_value : ';' ∉ value.toList) :
    Style.declarations ((d.setStyle h name value).styleText h).toList =
        (Style.declarations (d.styleText h).toList).filter (·.1 ≠ name.toList) ++ [(name.toList, value.toList)] ∧
      (d.setStyle h name value).setStyle h name value = d.setStyle h name value := by
  have new : Style.Legible (name.toList, value.toList) :=
    { named := by simpa using named
      trim_name := by rw [← String.toList_inj] at trim_name; simpa [trimmed, Text.onChars] using trim_name
      trim_value := by rw [← String.toList_inj] at trim_value; simpa [trimmed, Text.onChars] using trim_value
      colon, semicolon_name, semicolon_value }
  have written := get?_setStyle hh name value
  constructor
  · rw [styleText, written, Option.getD_some, String.toList_ofList, Style.declarations_setProperty new]
  · rw [setStyle, written, Option.getD_some, String.toList_ofList, Style.setProperty_setProperty new]
    exact set_of_get? written

/-- A rectangle with a careless style: names without values, a property named twice, and empty declarations. -/
def careless : Document :=
  ofTree (.node { name := "svg" }
    (.ofRoots [{ name := "rect", attributes := [("style", " color : red;; Fill: a:b ;fill ; fill:none; ;x")] }]) .nil)

theorem careless_declarations :
    (1 < careless.elements.size ∧ "fill" ≠ "" ∧ trimmed "fill" = "fill" ∧ ':' ∉ "fill".toList ∧ ';' ∉ "fill".toList ∧
      trimmed "url(a:b)" = "url(a:b)" ∧ ';' ∉ "url(a:b)".toList) ∧
    Style.declarations ((careless.setStyle 1 "fill" "url(a:b)").styleText 1).toList =
      (Style.declarations (careless.styleText 1).toList).filter (·.1 ≠ "fill".toList) ++
        [("fill".toList, "url(a:b)".toList)] ∧
    (careless.setStyle 1 "fill" "url(a:b)").setStyle 1 "fill" "url(a:b)" = careless.setStyle 1 "fill" "url(a:b)" ∧
    (careless.setStyle 1 "fill" "url(a:b)").styleText 1 = "color: red; Fill: a:b; x: ; fill: url(a:b)" := by
  have fits : 1 < careless.elements.size ∧ "fill" ≠ "" ∧ trimmed "fill" = "fill" ∧ ':' ∉ "fill".toList ∧
      ';' ∉ "fill".toList ∧ trimmed "url(a:b)" = "url(a:b)" ∧ ';' ∉ "url(a:b)".toList := by decide
  obtain ⟨hh, named, trim_name, colon, semicolon_name, trim_value, semicolon_value⟩ := fits
  obtain ⟨kept, again⟩ :=
    declarations_setStyle hh named trim_name colon semicolon_name trim_value semicolon_value
  exact ⟨⟨hh, named, trim_name, colon, semicolon_name, trim_value, semicolon_value⟩, kept, again, by decide +kernel⟩

end Document

end SvgForm
