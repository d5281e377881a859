import SvgForm.Proofs.Document.Layout
/-! # Writing texts

A text that is written into an element shows there, and no element apart from it, neither below nor above,
shows anything else than before.
-/

namespace SvgForm.Document

variable {d d' : Document} {h x y : Handle}

/-! ## What a change at an element leaves alone -/

theorem SameBelow.refl (d : Document) (x : Handle) : SameBelow d d x :=
  ⟨rfl, fun _ _ => rfl⟩

theorem SameBelow.trans {d₁ d₂ d₃ : Document} (first : SameBelow d₁ d₂ x)
    (second : SameBelow d₂ d₃ x) : SameBelow d₁ d₃ x where
  below := second.below.trans first.below
  bare := by
    intro y hy
    rw [second.bare y (by rwa [first.below]), first.bare y hy]

/-- A change at `h` that concerns only what is at, below or above it: nothing else leaves the tree, nothing
comes to be below anything unless it is new, and elements apart from `h` show what they did. -/
structure ChangedAt (h : Handle) (d d' : Document) : Prop where
  wellFormed : d'.WellFormed
  here : h ∈ d'.handles
  keeps : ∀ x ∈ d.handles, ¬ d.outline.Below h x → x ∈ d'.handles
  below : ∀ x, ∀ y < d.elements.size, d'.outline.Below x y → d.outline.Below x y
  same : ∀ x ∈ d.handles, x ≠ h → ¬ d.outline.Below x h → ¬ d.outline.Below h x → SameBelow d d' x
  grows : d.elements.size ≤ d'.elements.size

namespace ChangedAt

theorem refl (hd : d.WellFormed) (hh : h ∈ d.handles) : ChangedAt h d d where
  wellFormed := hd
  here := hh
  keeps := fun _ hx _ => hx
  below := fun _ _ _ => id
  same := fun x _ _ _ _ => .refl d x
  grows := Nat.le_refl _

theorem trans {d₁ d₂ d₃ : Document} (hd : d₁.WellFormed) (hh : h ∈ d₁.handles)
    (first : ChangedAt h d₁ d₂) (second : ChangedAt h d₂ d₃) : ChangedAt h d₁ d₃ where
  wellFormed := second.wellFormed
  here := second.here
  keeps := by
    intro x hx apart
    refine second.keeps x (first.keeps x hx apart) fun below => apart ?_
    exact first.below h x (hd.lt_size hx) below
  below := by
    intro x y old below
    exact first.below x y old (second.below x y (Nat.lt_of_lt_of_le old first.grows) below)
  same := by
    intro x hx other above under
    refine (first.same x hx other above under).trans ?_
    refine second.same x (first.keeps x hx under) other (fun below => above ?_) fun below => under ?_
    · exact first.below x h (hd.lt_size hh) below
    · exact first.below h x (hd.lt_size hx) below
  grows := Nat.le_trans first.grows second.grows

end ChangedAt

/-! ## Setting a text -/

/-- An element that is neither `h` nor above it has only other elements below it. -/
theorem ne_of_mem_below (hd : d.WellFormed) (hx : x ∈ d.handles) (other : x ≠ h)
    (above : ¬ d.outline.Below x h) (hy : y ∈ x :: (d.below x).toList) : y ≠ h := by
  rintro rfl
  rcases List.mem_cons.mp hy with rfl | inside
  · exact other rfl
  · exact above ((hd.mem_below_iff hx).mp inside)

theorem changedAt_setText (hd : d.WellFormed) (hh : h ∈ d.handles) (text : String) :
    ChangedAt h d (d.setText h text) where
  wellFormed := hd.setText h text
  here := (mem_handles_setText hd hh text).mpr ⟨hh, hd.not_below_self⟩
  keeps := fun x hx apart => (mem_handles_setText hd hh text).mpr ⟨hx, apart⟩
  below := fun x y _ below => Below.of_setText below
  same := by
    intro x hx other above _
    refine ⟨below_setText hd hh hx other above text, fun y hy => ?_⟩
    rw [element_setText (hd.lt_size hh), if_neg (ne_of_mem_below hd hx other above hy)]
  grows := by simp [setText]

/-! ## Appending lines -/

theorem changedAt_appendElement (hd : d.WellFormed) (hh : h ∈ d.handles) (e : Xml.Element) :
    ChangedAt h d (d.appendElement h e) where
  wellFormed := hd.appendElement (hd.lt_size hh) e
  here := (mem_handles_appendElement hd hh e).mpr (.inl hh)
  keeps := fun x hx _ => (mem_handles_appendElement hd hh e).mpr (.inl hx)
  below := fun x y old below => Below.of_appendElement (Nat.ne_of_lt old) below
  same := by
    intro x hx other above _
    refine ⟨below_appendElement hd hh hx other above e, fun y hy => ?_⟩
    have attached : y ∈ d.handles := by
      rcases List.mem_cons.mp hy with rfl | inside
      · exact hx
      · exact below_subset hx inside
    rw [element_appendElement, if_neg (Nat.ne_of_lt (hd.lt_size attached))]
  grows := by simp [appendElement]

theorem changedAt_appendLines (hd : d.WellFormed) (hh : h ∈ d.handles) (ax dy : Option String)
    (lines : List (List Char)) : ChangedAt h d (lines.foldl (appendLine h ax dy) d) := by
  induction lines generalizing d with
  | nil => exact .refl hd hh
  | cons line lines ih =>
      have one : ChangedAt h d (appendLine h ax dy d line) := changedAt_appendElement hd hh _
      exact one.trans hd hh (ih one.wellFormed one.here)

theorem changedAt_setLines (hd : d.WellFormed) (hh : h ∈ d.handles) (first : List Char)
    (rest : List (List Char)) (spacing : String) : ChangedAt h d (d.setLines h first rest spacing) := by
  have cleared := changedAt_setText hd hh ""
  have one : ChangedAt h (d.clear h) (appendLine h (d.get? h "x") none (d.clear h) first) :=
    changedAt_appendElement cleared.wellFormed cleared.here _
  have all := changedAt_appendLines one.wellFormed one.here (d.get? h "x") (some spacing) rest
  exact cleared.trans hd hh (one.trans cleared.wellFormed cleared.here all)

/-! ## Writing a text -/

/-- How a text that was written shows: trimmed if it is one line, and otherwise its lines without
no-break spaces, of which empty ones do not count. -/
def shown (text : String) : String :=
  if '\n' ∈ text.toList then "\n".intercalate (shownLines (text.toList.splitOn '\n')) else trimmed text

/-- A newline parts a text into two lines at least. -/
theorem splitOn_of_mem {text : List Char} (newline : '\n' ∈ text) :
    ∃ first second rest, text.splitOn '\n' = first :: second :: rest := by
  obtain ⟨before, after, rfl⟩ := List.append_of_mem newline
  rw [List.splitOn_append_cons_self]
  cases left : before.splitOn '\n' with
  | nil => exact absurd left (List.splitOn_ne_nil _ _)
  | cons first more =>
      cases right : after.splitOn '\n' with
      | nil => exact absurd right (List.splitOn_ne_nil _ _)
      | cons second rest =>
          cases more with
          | nil => exact ⟨first, second, rest, rfl⟩
          | cons next more => exact ⟨first, next, more ++ second :: rest, rfl⟩

/-- A text is written unless it has several lines and the font of its element cannot be measured. -/
theorem layText_spec {ε : Type} (hd : d.WellFormed) (hh : h ∈ d.handles) (g : FontGauge ε) (text : String) :
    (∃ d', d.layText g h text none = .ok d' ∧ ChangedAt h d d' ∧ d'.displayText h = shown text) ∨
      '\n' ∈ text.toList ∧ ∃ why, g.extent (d.font h).family (d.font h).size = .error why ∧
        d.layText g h text none = .error why := by
  by_cases newline : '\n' ∈ text.toList
  · obtain ⟨first, second, rest, parted⟩ := splitOn_of_mem newline
    have lines : linesToWrite g (d.font h) text none = .ok (first :: second :: rest) := congrArg Except.ok parted
    cases measured : g.extent (d.font h).family (d.font h).size with
    | error why =>
        refine .inr ⟨newline, why, rfl, ?_⟩
        rw [layText, lines]
        simp [measured, bind, Except.bind]
    | ok extent =>
        refine .inl ⟨_, layText_several lines measured, changedAt_setLines hd hh first (second :: rest) _, ?_⟩
        rw [(laidOut_setLines hd (hd.lt_size hh) first (second :: rest) _).displayText (List.cons_ne_nil first _), shown,
          if_pos newline, parted]
  · have line : linesToWrite g (d.font h) text none = .ok [text.toList] :=
      congrArg Except.ok (List.splitOn_eq_singleton newline)
    refine .inl ⟨d.setText h text, layText_single line (Nat.le_refl 1), changedAt_setText hd hh text, ?_⟩
    rw [displayText_setText hd (hd.lt_size hh), shown, if_neg newline]

end SvgForm.Document
