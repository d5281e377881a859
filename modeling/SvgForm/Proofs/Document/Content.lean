import SvgForm.Identity.Basic
import SvgForm.Proofs.Document.Tree
/-! # The content of elements

An element has attributes and content: its name, its text and its tail. What a reader sees of an element,
and whether it is content at all, hangs on the content of the elements at and below it and on the names of
those around it, but on no attribute.
-/

namespace SvgForm

/-- The element without its attributes. -/
def Xml.Element.bare (e : Xml.Element) : Xml.Element :=
  { e with attributes := [] }

theorem Xml.Element.bare_eq {e e' : Xml.Element} (h : e'.bare = e.bare) :
    e'.name = e.name ∧ e'.text = e.text ∧ e'.tail = e.tail := by
  simpa [bare] using h

/-! ## Attributes of an element -/

namespace Xml

theorem lookup_setAttribute (name value other : String) (l : List (String × String)) :
    (setAttribute name value l).lookup other = if other = name then some value else l.lookup other := by
  induction l with
  | nil =>
      by_cases same : other = name
      · simp [setAttribute, same]
      · have differs : (other == name) = false := by simpa using same
        simp [setAttribute, same, differs]
  | cons entry rest ih =>
      obtain ⟨n, v⟩ := entry
      by_cases here : n = name
      · by_cases same : other = name
        · simp [setAttribute, here, same]
        · have differs : (other == name) = false := by simpa using same
          simp [setAttribute, here, same, differs, List.lookup_cons]
      · simp only [setAttribute, here, if_false, List.lookup_cons]
        cases same : other == n with
        | true =>
            have : other = n := by simpa using same
            simp [this, here]
        | false => exact ih

theorem lookup_filter {p : String → Bool} {name : String} (kept : p name = true)
    (l : List (String × String)) : (l.filter (p ·.1)).lookup name = l.lookup name := by
  induction l with
  | nil => rfl
  | cons entry l ih =>
      obtain ⟨n, v⟩ := entry
      by_cases here : name = n
      · subst here
        simp [kept]
      · cases pn : p n <;> simp [List.lookup_cons, pn, beq_false_of_ne here, ih]

theorem lookup_filter_ne (name other : String) (l : List (String × String)) :
    (l.filter (·.1 ≠ name)).lookup other = if other = name then none else l.lookup other := by
  induction l with
  | nil => simp
  | cons entry rest ih =>
      obtain ⟨n, v⟩ := entry
      by_cases here : n = name
      · simp only [List.filter_cons, here, ne_eq, not_true, decide_false, Bool.false_eq_true, if_false]
        rw [ih, List.lookup_cons]
        by_cases same : other = name
        · simp [same]
        · have differs : (other == name) = false := by simpa using same
          simp [same, differs]
      · simp only [List.filter_cons, here, ne_eq, not_false_eq_true, decide_true, if_true,
          List.lookup_cons]
        cases same : other == n with
        | true =>
            have : other = n := by simpa using same
            simp [this, here]
        | false => exact ih

theorem setAttribute_of_lookup {name value : String} {l : List (String × String)}
    (h : l.lookup name = some value) : setAttribute name value l = l := by
  induction l with
  | nil => simp at h
  | cons entry rest ih =>
      obtain ⟨n, v⟩ := entry
      rw [List.lookup_cons] at h
      cases same : name == n with
      | true =>
          have : name = n := by simpa using same
          simp only [same, Option.some.injEq] at h
          simp [setAttribute, this, h]
      | false =>
          have differs : n ≠ name := by
            rintro rfl
            simp at same
          simp only [same] at h
          simp only [setAttribute, differs, if_false, ih h]

end Xml

namespace Document

variable {d d' : Document} {h x : Handle}

theorem element_mapElement (f : Xml.Element → Xml.Element) (hh : h < d.elements.size) :
    (d.mapElement h f).element x = if x = h then f (d.element x) else d.element x := by
  simp only [element, mapElement, Array.getElem?_modify]
  by_cases same : h = x
  · subst same
    simp [Array.getElem?_eq_getElem hh]
  · simp [same, Ne.symm same]

theorem get?_set (hh : h < d.elements.size) (name value other : String) :
    (d.set h name value).get? x other =
      if x = h ∧ Xml.qualify other = Xml.qualify name then some value else d.get? x other := by
  simp only [get?, set, element_mapElement _ hh, Xml.Element.attribute?]
  by_cases here : x = h
  · simp [here, Xml.lookup_setAttribute]
  · simp [here]

theorem get?_remove (hh : h < d.elements.size) (name other : String) :
    (d.remove h name).get? x other =
      if x = h ∧ Xml.qualify other = Xml.qualify name then none else d.get? x other := by
  simp only [get?, remove, element_mapElement _ hh, Xml.Element.attribute?]
  by_cases here : x = h
  · simp only [here, if_true, true_and]
    exact Xml.lookup_filter_ne ..
  · simp [here]

theorem set_of_get? {name value : String} (already : d.get? h name = some value) :
    d.set h name value = d := by
  have same : d.elements.modify h (fun e =>
      { e with attributes := Xml.setAttribute (Xml.qualify name) value e.attributes }) = d.elements := by
    refine Array.ext_getElem? fun i => ?_
    rw [Array.getElem?_modify]
    split
    case isFalse => rfl
    case isTrue here =>
      subst here
      cases found : d.elements[h]? with
      | none => rfl
      | some e =>
          have : e.attributes.lookup (Xml.qualify name) = some value := by
            simpa [get?, element, Xml.Element.attribute?, found] using already
          simp [Xml.setAttribute_of_lookup this]
  simp only [set, mapElement, same]

theorem mem_handles_of_find? {value : String} {names : List String}
    (found : d.find? value names = some h) : h ∈ d.handles := by
  rw [find?] at found
  split at found
  case isTrue => simp at found
  case isFalse =>
    obtain ⟨name, _, first⟩ := List.exists_of_findSome?_eq_some found
    exact List.mem_of_find?_eq_some first

/-! ## What a reader sees -/

theorem textOf_eq {f : Forest Handle} (same : ∀ x ∈ f.toList,
    (d'.element x).text = (d.element x).text ∧ (d'.element x).tail = (d.element x).tail) : d'.textOf f = d.textOf f := by
  induction f with
  | nil => rfl
  | node a children siblings ihc ihs =>
      obtain ⟨text, tail⟩ := same a List.mem_cons_self
      simp only [textOf, text, tail]
      rw [ihc fun x hx => same x (List.mem_cons_of_mem _ (List.mem_append_left _ hx)),
        ihs fun x hx => same x (List.mem_cons_of_mem _ (List.mem_append_right _ hx))]

theorem textOf_congr {f : Forest Handle}
    (same : ∀ x ∈ f.toList, (d'.element x).bare = (d.element x).bare) : d'.textOf f = d.textOf f :=
  textOf_eq fun x hx => (Xml.Element.bare_eq (same x hx)).2

theorem mem_textOf_iff {f : Forest Handle} {c : Char} : c ∈ (d.textOf f).toList ↔
    ∃ x ∈ f.toList, c ∈ (d.element x).text.toList ∨ c ∈ (d.element x).tail.toList := by
  induction f with
  | nil => simp [textOf, Forest.toList]
  | node a children siblings ihc ihs =>
      simp only [textOf, String.toList_append, List.mem_append, ihc, ihs, Forest.toList, List.mem_cons]
      constructor
      · rintro (((here | ⟨x, mem, there⟩) | here) | ⟨x, mem, there⟩)
        · exact ⟨a, .inl rfl, .inl here⟩
        · exact ⟨x, .inr (.inl mem), there⟩
        · exact ⟨a, .inl rfl, .inr here⟩
        · exact ⟨x, .inr (.inr mem), there⟩
      · rintro ⟨x, rfl | mem | mem, there⟩
        · exact there.elim (fun text => .inl (.inl (.inl text))) fun tail => .inl (.inr tail)
        · exact .inl (.inl (.inr ⟨x, mem, there⟩))
        · exact .inr ⟨x, mem, there⟩

theorem spanLines_congr {f : Forest Handle}
    (same : ∀ x ∈ f.toList, (d'.element x).bare = (d.element x).bare) :
    d'.spanLines f = d.spanLines f := by
  induction f with
  | nil => rfl
  | node a children siblings _ ihs =>
      obtain ⟨name, text, tail⟩ := Xml.Element.bare_eq (same a List.mem_cons_self)
      have span : d'.isSpan a = d.isSpan a := by rw [isSpan, isSpan, tag, tag, name]
      simp only [spanLines, span, text, tail]
      rw [textOf_congr fun x hx => same x (List.mem_cons_of_mem _ (List.mem_append_left _ hx)),
        ihs fun x hx => same x (List.mem_cons_of_mem _ (List.mem_append_right _ hx))]

/-- What a reader sees of an element is the same where the same handles with the same content are below
it. -/
structure SameBelow (d d' : Document) (h : Handle) : Prop where
  below : d'.below h = d.below h
  bare : ∀ x ∈ h :: (d.below h).toList, (d'.element x).bare = (d.element x).bare

namespace SameBelow

theorem tag (same : SameBelow d d' h) : d'.tag h = d.tag h := by
  rw [Document.tag, Document.tag, (Xml.Element.bare_eq (same.bare h List.mem_cons_self)).1]

theorem text (same : SameBelow d d' h) : d'.text h = d.text h := by
  rw [Document.text, Document.text, (Xml.Element.bare_eq (same.bare h List.mem_cons_self)).2.1,
    same.below, textOf_congr fun x hx => same.bare x (List.mem_cons_of_mem _ hx)]

theorem lines (same : SameBelow d d' h) : d'.lines h = d.lines h := by
  have inside : ∀ x ∈ (d.below h).toList, (d'.element x).bare = (d.element x).bare :=
    fun x hx => same.bare x (List.mem_cons_of_mem _ hx)
  have spans : (d'.children h).any d'.isSpan = (d.children h).any d.isSpan := by
    rw [Bool.eq_iff_iff, List.any_eq_true, List.any_eq_true, children, children, same.below]
    refine exists_congr fun x => and_congr_right fun hx => ?_
    rw [isSpan, isSpan, Document.tag, Document.tag,
      (Xml.Element.bare_eq (inside x (Forest.roots_subset hx))).1]
  rw [Document.lines, Document.lines, same.text, spans, same.below,
    spanLines_congr inside, (Xml.Element.bare_eq (same.bare h List.mem_cons_self)).2.1]

theorem displayText (same : SameBelow d d' h) : d'.displayText h = d.displayText h := by
  rw [Document.displayText, Document.displayText, same.lines]

theorem isPlaceholder (same : SameBelow d d' h) (phrase : String) :
    d'.isPlaceholder h phrase = d.isPlaceholder h phrase := by
  rw [Document.isPlaceholder, Document.isPlaceholder, same.text]

end SameBelow

/-! ## Attributes do not matter -/

/-- Documents that differ in nothing but attributes. -/
structure SameContent (d d' : Document) : Prop where
  outline : d'.outline = d.outline
  detached : d'.detached = d.detached
  size : d'.elements.size = d.elements.size
  bare : ∀ x, (d'.element x).bare = (d.element x).bare

namespace SameContent

theorem refl (d : Document) : SameContent d d := ⟨rfl, rfl, rfl, fun _ => rfl⟩

theorem trans {d₁ d₂ d₃ : Document} (first : SameContent d₁ d₂) (second : SameContent d₂ d₃) :
    SameContent d₁ d₃ where
  outline := second.outline.trans first.outline
  detached := second.detached.trans first.detached
  size := second.size.trans first.size
  bare := fun x => (second.bare x).trans (first.bare x)

theorem mapElement (d : Document) (h : Handle) {f : Xml.Element → Xml.Element}
    (keeps : ∀ e, (f e).bare = e.bare) : SameContent d (d.mapElement h f) where
  outline := rfl
  detached := rfl
  size := Array.size_modify ..
  bare := by
    intro x
    simp only [element, Document.mapElement, Array.getElem?_modify]
    split
    case isFalse => rfl
    case isTrue here =>
      subst here
      cases d.elements[h]? with
      | none => rfl
      | some e => exact keeps e

theorem set (d : Document) (h : Handle) (name value : String) : SameContent d (d.set h name value) :=
  mapElement d h fun _ => rfl

theorem remove (d : Document) (h : Handle) (name : String) : SameContent d (d.remove h name) :=
  mapElement d h fun _ => rfl

theorem wellFormed (same : SameContent d d') (hd : d.WellFormed) : d'.WellFormed where
  rooted := by rw [same.outline]; exact hd.rooted
  covers := by rw [same.outline, same.detached, same.size]; exact hd.covers

theorem below (same : SameContent d d') (h : Handle) : d'.below h = d.below h := by
  rw [Document.below, Document.below, same.outline, same.detached]

theorem handles (same : SameContent d d') : d'.handles = d.handles := by
  rw [Document.handles, Document.handles, same.outline]

theorem ancestors (same : SameContent d d') (h : Handle) : d'.ancestors h = d.ancestors h := by
  rw [Document.ancestors, Document.ancestors, same.outline]

theorem sameBelow (same : SameContent d d') (h : Handle) : SameBelow d d' h where
  below := same.below h
  bare := fun x _ => same.bare x

theorem tag (same : SameContent d d') (h : Handle) : d'.tag h = d.tag h :=
  (same.sameBelow h).tag

end SameContent

/-! ## Eligible elements -/

/-- Whether an element is content hangs on its tag and on those around it. -/
theorem isContent_congr (own : d'.tag h = d.tag h) (path : d'.ancestors h = d.ancestors h)
    (tags : ∀ x ∈ d.ancestors h, d'.tag x = d.tag x) : d'.isContent h = d.isContent h := by
  rw [isContent, isContent, path, Bool.eq_iff_iff, List.all_eq_true, List.all_eq_true]
  refine forall_congr' fun x => imp_congr_right fun hx => ?_
  rcases List.mem_cons.mp hx with rfl | above
  · rw [own]
  · rw [tags x above]

/-- Whether an element can have an identity hangs on what is below it and on the tags around it. -/
theorem isEligible_congr (same : SameBelow d d' h) (path : d'.ancestors h = d.ancestors h)
    (tags : ∀ x ∈ d.ancestors h, d'.tag x = d.tag x) : d'.isEligible h = d.isEligible h := by
  rw [isEligible, isEligible, isContent_congr same.tag path tags, same.isPlaceholder]

theorem SameContent.eligible (same : SameContent d d') : d'.eligible = d.eligible := by
  rw [Document.eligible, Document.eligible, same.handles]
  refine List.filter_congr fun h _ => ?_
  exact isEligible_congr (same.sameBelow h) (same.ancestors h) fun x _ => same.tag x

/-! ## Copies -/

theorem element_copy (hh : h ∈ d.handles) : d.copy.element h = d.element h := by
  simp only [element, copy, Array.getElem?_mapIdx, hh, if_true]
  cases d.elements[h]? <;> rfl

theorem ancestors_subset (hd : d.WellFormed) : d.ancestors h ⊆ d.handles :=
  fun _ hx => (hd.mem_ancestors_iff.mp hx).mem_left

theorem sameBelow_copy (hh : h ∈ d.handles) : SameBelow d d.copy h where
  below := below_of_childrenOf? (childrenOf?_below hh)
  bare := by
    intro x hx
    rcases List.mem_cons.mp hx with rfl | inside
    · rw [element_copy hh]
    · rw [element_copy (below_subset hh inside)]

theorem eligible_copy (hd : d.WellFormed) : d.copy.eligible = d.eligible := by
  refine List.filter_congr fun h hh => ?_
  refine isEligible_congr (sameBelow_copy hh) rfl fun x hx => ?_
  rw [tag, tag, element_copy (ancestors_subset hd hx)]

end Document

end SvgForm
