import SvgForm.Proofs.Document.Write
import SvgForm.Proofs.Identity.Ensure
/-! # Identities and new elements

A new element without a text makes no other element eligible and none ineligible. Its base key is reserved from
then on, and it is claimed wherever the element stands; but where the key is no identity yet, no other element has
to give way to it.
-/

namespace SvgForm

/-! ## A newcomer among names -/

namespace UniqueKeys.Assigns

variable {α : Type} [DecidableEq α] {a : α} {l : List α} {key name : α → String}

/-- Names for all but one stay names when that one comes in between and takes its key, which is no name yet. -/
theorem of_filter_ne (names : Assigns (l.filter (· ≠ a)) key name) (distinct : l.Nodup) (own : name a = key a)
    (fresh : ∀ x ∈ l, x ≠ a → name x ≠ key a) : Assigns l key name := by
  intro before x after eq
  have hx : x ∈ l := by rw [eq]; simp
  by_cases here : x = a
  · subst here
    refine ⟨1, own, Nat.le_refl 1, ?_, fun m pos lt => by omega⟩
    rintro (issued | ⟨lt, -⟩)
    · obtain ⟨y, hy, same⟩ := List.mem_map.mp issued
      have other : y ≠ x := by
        rintro rfl
        rw [eq, List.nodup_append'] at distinct
        exact distinct.2.2 hy List.mem_cons_self
      exact fresh y (by rw [eq]; exact List.mem_append_left _ hy) other same
    · exact absurd lt (Nat.lt_irrefl 1)
  · have among : l.filter (· ≠ a) = before.filter (· ≠ a) ++ x :: after.filter (· ≠ a) := by
      rw [eq, List.filter_append, List.filter_cons_of_pos (by simpa using here)]
    obtain ⟨n, named, first⟩ := names _ x _ among
    have stays : disambiguate (key x) n ≠ key a := named ▸ fresh x hx here
    -- What the newcomer is called and what it reserves is its key, which the name of `x` is not.
    refine ⟨n, named, first.pos, ?_, fun m pos lt => ?_⟩
    · rintro (issued | ⟨many, reserved⟩)
      · obtain ⟨y, hy, same⟩ := List.mem_map.mp issued
        have old : y ≠ a := by
          rintro rfl
          exact stays (same.symm.trans own)
        exact first.not_issued (List.mem_map.mpr ⟨y, List.mem_filter.mpr ⟨hy, by simpa using old⟩, same⟩)
      · obtain ⟨y, hy, same⟩ := List.mem_map.mp reserved
        have old : y ≠ a := by
          rintro rfl
          exact stays same.symm
        exact first.not_reserved many (List.mem_map.mpr ⟨y, List.mem_filter.mpr ⟨hy, by simpa using old⟩, same⟩)
    · exact (first.least m pos lt).imp (fun issued => List.map_subset name (List.filter_subset_self _) issued)
        (And.imp_right fun reserved => List.map_subset key (List.filter_subset_self _) reserved)

end UniqueKeys.Assigns

/-! ## New last children -/

namespace Forest

variable {α : Type} [DecidableEq α] {a b c : α}

theorem pathTo?_append (b : α) (above : List α) (f g : Forest α) :
    pathTo? b above (f.append g) = (pathTo? b above f).or (pathTo? b above g) := by
  induction f with
  | nil => rfl
  | node c children siblings _ ih =>
      rw [append, pathTo?, pathTo?]
      split
      case isTrue => rw [Option.some_or]
      case isFalse => rw [ih, Option.or_assoc]

/-- A new last child is above no other label. -/
theorem pathTo?_grown (other : b ≠ c) (a : α) (above : List α) (f : Forest α) :
    pathTo? b above (mapChildren a (fun row => row.append (ofRoots [c])) f) = pathTo? b above f := by
  have absent : ∀ above, pathTo? b above (ofRoots [c]) = none := fun above =>
    pathTo?_eq_none.mpr (by simpa using other)
  induction f generalizing above with
  | nil => rfl
  | node d children siblings ihc ihs =>
      have inside : ∀ above, pathTo? b above (if d = a then children.append (ofRoots [c])
          else mapChildren a (fun row => row.append (ofRoots [c])) children) = pathTo? b above children := by
        intro above
        split
        case isTrue => rw [pathTo?_append, absent, Option.or_none]
        case isFalse => exact ihc above
      rw [mapChildren, pathTo?, pathTo?, inside, ihs]

theorem filter_grown (a : α) (f : Forest α) :
    (mapChildren a (fun row => row.append (ofRoots [c])) f).toList.filter (· ≠ c) = f.toList.filter (· ≠ c) := by
  induction f with
  | nil => rfl
  | node d children siblings ihc ihs =>
      have inside : (if d = a then children.append (ofRoots [c])
          else mapChildren a (fun row => row.append (ofRoots [c])) children).toList.filter (· ≠ c) =
            children.toList.filter (· ≠ c) := by
        split
        case isTrue => simp
        case isFalse => exact ihc
      rw [mapChildren, toList, toList, List.filter_cons, List.filter_cons, List.filter_append, List.filter_append,
        inside, ihs]

end Forest

namespace Document

variable {d : Document} {e : Xml.Element} {holder : String} {p x : Handle}

/-! ## What a new element leaves alone -/

theorem textOf_append (d : Document) (f g : Forest Handle) : d.textOf (f.append g) = d.textOf f ++ d.textOf g := by
  induction f with
  | nil => rw [Forest.append, textOf, String.empty_append]
  | node a children siblings _ ih => simp only [Forest.append, textOf, ih, String.append_assoc]

theorem textOf_mapChildren {g : Forest Handle → Forest Handle} (silent : ∀ row, d.textOf (g row) = d.textOf row)
    (p : Handle) (f : Forest Handle) : d.textOf (f.mapChildren p g) = d.textOf f := by
  induction f with
  | nil => rfl
  | node a children siblings ihc ihs =>
      rw [Forest.mapChildren, textOf, textOf, ihs]
      split
      case isTrue => rw [silent]
      case isFalse => rw [ihc]

/-- A new element without a text adds nothing to the texts of those around it. -/
theorem text_appendElement (hd : d.WellFormed) (hp : p < d.elements.size) (text : e.text = "") (tail : e.tail = "")
    (hx : x < d.elements.size) : (d.appendElement p e).text x = d.text x := by
  have old : ∀ y < d.elements.size, (d.appendElement p e).element y = d.element y := fun y hy => by
    rw [element_appendElement, if_neg (Nat.ne_of_lt hy)]
  have silent : ∀ row, (d.appendElement p e).textOf (row.append (.ofRoots [d.elements.size])) =
      (d.appendElement p e).textOf row := fun row => by
    simp [textOf_append, Forest.ofRoots, textOf, element_appendElement, text, tail]
  have grown : (d.appendElement p e).textOf ((d.appendElement p e).below x) =
      (d.appendElement p e).textOf (d.below x) := by
    rw [below_appendElement_eq hd hp, if_neg (Nat.ne_of_lt hx)]
    split
    case isTrue here => rw [silent, here]
    case isFalse => rw [textOf_mapChildren silent]
  rw [Document.text, Document.text, old x hx, grown]
  congr 1
  refine textOf_eq fun y hy => ?_
  rw [old y (hd.lt_size_of_mem_below hx hy)]
  exact ⟨rfl, rfl⟩

theorem ancestors_appendElement (old : x ≠ d.elements.size) (p : Handle) (e : Xml.Element) :
    (d.appendElement p e).ancestors x = d.ancestors x := by
  rw [ancestors, ancestors, appendElement, Forest.pathTo?_grown old]

theorem tag_appendElement (old : x ≠ d.elements.size) (p : Handle) (e : Xml.Element) :
    (d.appendElement p e).tag x = d.tag x := by
  rw [tag, tag, element_appendElement, if_neg old]

theorem isEligible_appendElement (hd : d.WellFormed) (hp : p < d.elements.size) (text : e.text = "")
    (tail : e.tail = "") (hx : x ∈ d.handles) : (d.appendElement p e).isEligible x = d.isEligible x := by
  have within := hd.lt_size hx
  have content : (d.appendElement p e).isContent x = d.isContent x := by
    refine isContent_congr (tag_appendElement (Nat.ne_of_lt within) p e)
      (ancestors_appendElement (Nat.ne_of_lt within) p e) fun y above => ?_
    exact tag_appendElement (Nat.ne_of_lt (hd.lt_size (ancestors_subset hd above))) p e
  rw [isEligible, isEligible, content, isPlaceholder, isPlaceholder, text_appendElement hd hp text tail within]

/-- A new element without a text changes nothing about which others are eligible, nor their order. -/
theorem eligible_appendElement (hd : d.WellFormed) (hp : p < d.elements.size) (text : e.text = "")
    (tail : e.tail = "") : (d.appendElement p e).eligible.filter (· ≠ d.elements.size) = d.eligible := by
  have old : d.handles.filter (· ≠ d.elements.size) = d.handles :=
    List.filter_eq_self.mpr fun x hx => by simpa using Nat.ne_of_lt (hd.lt_size hx)
  have handles : (d.appendElement p e).handles.filter (· ≠ d.elements.size) = d.handles := by
    conv_rhs => rw [← old]
    exact Forest.filter_grown p d.outline
  rw [eligible, List.filter_comm, handles, eligible]
  exact List.filter_congr fun x hx => isEligible_appendElement hd hp text tail hx

theorem baseKey_appendElement (old : x ≠ d.elements.size) (p : Handle) (e : Xml.Element) (holder : String) :
    (d.appendElement p e).baseKey holder x = d.baseKey holder x := by
  have element : (d.appendElement p e).element x = d.element x := by rw [element_appendElement, if_neg old]
  exact baseKey_congr (tag_appendElement old p e) (by rw [get?, get?, element]) (by rw [get?, get?, element])

/-! ## Identities -/

open UniqueKeys

/-- The identities of before are names in the grown document, where the new element has its base key. -/
theorem assigns_appendElement (hd : d.WellFormed) (hp : p < d.elements.size) (text : e.text = "")
    (tail : e.tail = "")
    (fresh : ∀ x ∈ d.eligible, d.identityOf holder x ≠ (d.appendElement p e).baseKey holder d.elements.size) :
    Assigns (d.appendElement p e).eligible ((d.appendElement p e).baseKey holder)
      (Function.update (d.identityOf holder) d.elements.size
        ((d.appendElement p e).baseKey holder d.elements.size)) := by
  have before := eligible_appendElement hd hp text tail
  have old : ∀ x ∈ d.eligible, x ≠ d.elements.size := fun x hx => Nat.ne_of_lt (hd.lt_size_of_eligible hx)
  have names : Assigns d.eligible ((d.appendElement p e).baseKey holder)
      (Function.update (d.identityOf holder) d.elements.size
        ((d.appendElement p e).baseKey holder d.elements.size)) := by
    refine ((hd.assigns_identityOf holder).settle fun x hx => ?_).congr fun x hx => ?_
    · exact .inl (baseKey_appendElement (old x hx) p e holder)
    · rw [Function.update_of_ne (old x hx)]
  refine Assigns.of_filter_ne (a := d.elements.size) ?_ (hd.appendElement hp e).eligible_nodup
    (Function.update_self ..) fun x hx other => ?_
  · rwa [before]
  · rw [Function.update_of_ne other]
    exact fresh x (before ▸ List.mem_filter.mpr ⟨hx, by simpa using other⟩)

/-- A new element whose base key is no identity, and so no base key either, takes no identity from the others,
wherever it stands: without it the identities are what they were. -/
theorem identities_appendChild (hd : d.Reachable) (hp : p < d.elements.size) (tag : String)
    (attributes : List (String × String))
    (fresh : ∀ x ∈ d.eligible,
      d.identityOf holder x ≠ (d.appendChild p tag attributes "").baseKey holder d.elements.size) :
    ((d.appendChild p tag attributes "").identities holder).filter (·.1 ≠ d.elements.size) =
      d.identities holder := by
  have hwf := hd.wellFormed
  have grown : (d.appendChild p tag attributes "").WellFormed := hwf.appendChild hp tag attributes ""
  have before : (d.appendChild p tag attributes "").eligible.filter (· ≠ d.elements.size) = d.eligible :=
    eligible_appendElement hwf hp rfl rfl
  have names := assigns_appendElement hwf hp rfl rfl fresh
  rw [grown.identities_eq holder, hwf.identities_eq holder, List.filter_map, Function.comp_def, before]
  refine List.map_congr_left fun x hx => ?_
  have there : x ∈ (d.appendChild p tag attributes "").eligible :=
    List.mem_of_mem_filter (before ▸ hx)
  have same := (grown.assigns_identityOf holder).unique names x there
  rw [same, Function.update_of_ne (Nat.ne_of_lt (hwf.lt_size_of_eligible hx))]

/-- An element with the next number of an id that occurs twice, inside the first element. -/
theorem rectangles_addition : rectangles.Reachable ∧ 1 < rectangles.elements.size ∧
    (∀ x ∈ rectangles.eligible, rectangles.identityOf identityAttribute x ≠
      (rectangles.appendChild 1 "title" [("id", "x_4")] "").baseKey identityAttribute rectangles.elements.size) ∧
    (rectangles.appendChild 1 "title" [("id", "x_4")] "").identities identityAttribute =
      [(1, "x"), (6, "x_4"), (2, "x_3"), (3, "x_2"), (4, "el-rect"), (5, "el-rect_2")] ∧
    ((rectangles.appendChild 1 "title" [("id", "x_4")] "").identities identityAttribute).filter
      (·.1 ≠ rectangles.elements.size) = rectangles.identities identityAttribute :=
  have reachable : rectangles.Reachable := .tree _ (by decide)
  have within : 1 < rectangles.elements.size := by decide
  have fresh : ∀ x ∈ rectangles.eligible, rectangles.identityOf identityAttribute x ≠
      (rectangles.appendChild 1 "title" [("id", "x_4")] "").baseKey identityAttribute rectangles.elements.size := by
    decide +kernel
  ⟨reachable, within, fresh, by decide +kernel,
    identities_appendChild reachable within "title" [("id", "x_4")] fresh⟩

end Document

end SvgForm
