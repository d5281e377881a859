import SvgForm.Document.Listing
import SvgForm.Proofs.Document.Reload
import SvgForm.Proofs.Document.Write
import SvgForm.Proofs.Xml.AttributeOrder
import SvgForm.Proofs.Xml.Listed
/-! # Listed attributes

In a document that was read, and in whatever edits make of it, no two attributes of an element have one name, and all
names are expanded. So an attribute whose name is familiar is found under the name it is listed by, and where no two
attributes of an element are listed by one name, all of them are listed.
-/

namespace SvgForm

/-! ## Settled attributes -/

namespace Xml

variable {name value : String} {l : List (String × String)}

/-- Attributes as documents have them: with different names, which are expanded. -/
structure Settled (l : List (String × String)) : Prop where
  distinct : (l.map Prod.fst).Nodup
  qualified : ∀ a ∈ l, qualify a.1 = a.1

namespace Settled

theorem nil : Settled [] :=
  ⟨List.nodup_nil, nofun⟩

theorem set (settled : Settled l) (name value : String) : Settled (setAttribute (qualify name) value l) where
  distinct := Change.nodup_setAttribute settled.distinct
  qualified a mem := by
    rcases Change.mem_setAttribute mem with before | rfl
    · exact settled.qualified a before
    · exact qualify_qualify name

theorem filter (settled : Settled l) (p : String × String → Bool) : Settled (l.filter p) where
  distinct := (List.filter_sublist.map Prod.fst).nodup settled.distinct
  qualified a mem := settled.qualified a (List.mem_of_mem_filter mem)

theorem foldl (settled : Settled l) (attributes : List (String × String)) :
    Settled (attributes.foldl (fun all (n, v) => setAttribute (qualify n) v all) l) := by
  induction attributes generalizing l with
  | nil => exact settled
  | cons a attributes ih => exact ih (settled.set a.1 a.2)

/-- Names that are read are expanded. -/
theorem of_legible {e : Element} (legible : e.Legible) : Settled e.attributes where
  distinct := legible.distinct
  qualified a mem := by
    obtain ⟨uri, label, expansion⟩ := (legible.attributes a mem).1
    exact expansion.qualify_eq

end Settled

/-! ## Attributes set one after the other -/

theorem mem_setAttribute_self (name value : String) (l : List (String × String)) :
    (name, value) ∈ setAttribute name value l := by
  induction l with
  | nil => exact List.mem_singleton_self _
  | cons a l ih =>
      rw [setAttribute]
      split
      case isTrue same =>
        rw [same]
        exact List.mem_cons_self
      case isFalse => exact List.mem_cons_of_mem _ ih

theorem mem_setAttribute_of_ne {a : String × String} (mem : a ∈ l) (other : a.1 ≠ name) :
    a ∈ setAttribute name value l := by
  induction l with
  | nil => cases mem
  | cons b l ih =>
      rw [setAttribute]
      split
      case isTrue same =>
        refine List.mem_cons_of_mem _ (List.mem_of_ne_of_mem ?_ mem)
        rintro rfl
        exact other same
      case isFalse =>
        rcases List.mem_cons.mp mem with rfl | later
        · exact List.mem_cons_self
        · exact List.mem_cons_of_mem _ (ih later)

/-- Sets many attributes. -/
def setAll (l more : List (String × String)) : List (String × String) :=
  more.foldl (fun all (n, v) => setAttribute n v all) l

theorem setAll_cons (l more : List (String × String)) (n v : String) :
    setAll l ((n, v) :: more) = setAll (setAttribute n v l) more :=
  rfl

variable {more : List (String × String)}

theorem mem_of_mem_setAll {a : String × String} (mem : a ∈ setAll l more) : a ∈ l ∨ a ∈ more := by
  induction more generalizing l with
  | nil => exact .inl mem
  | cons b more ih =>
      rw [List.mem_cons, or_left_comm, ← or_assoc, or_comm (a := a = b)]
      exact (ih mem).imp_left Change.mem_setAttribute

/-- What is set last, under whatever name, stays. -/
theorem mem_setAll {n v : String} (mem : (n, v) ∈ l ∨ (n, v) ∈ more) (last : ∀ a ∈ more, a.1 = n → a.2 = v) :
    (n, v) ∈ setAll l more := by
  induction more generalizing l with
  | nil => exact mem.resolve_right List.not_mem_nil
  | cons a more ih =>
      obtain ⟨m, w⟩ := a
      obtain ⟨here, later⟩ := List.forall_mem_cons.mp last
      rw [setAll_cons]
      by_cases same : m = n
      · obtain rfl : w = v := here same
        rw [same]
        exact ih (.inl (mem_setAttribute_self n w l)) later
      · have other : (n, v) ≠ (m, w) := fun both => same (Prod.mk.inj both).1.symm
        refine ih (mem.imp (fun before => mem_setAttribute_of_ne before (Ne.symm same)) fun after => ?_) later
        exact List.mem_of_ne_of_mem other after

/-- Attributes with different names come one after the other. -/
theorem setAll_of_nodup (distinct : ((l ++ more).map Prod.fst).Nodup) : setAll l more = l ++ more := by
  induction more generalizing l with
  | nil => rw [List.append_nil]; rfl
  | cons a more ih =>
      obtain ⟨n, v⟩ := a
      have absent : n ∉ l.map Prod.fst := by
        rw [List.map_append, List.map_cons, List.nodup_append] at distinct
        exact fun mem => distinct.2.2 n mem n List.mem_cons_self rfl
      have step : setAttribute n v l = l ++ [(n, v)] := by
        have last := Change.setAttribute_append_of_not_mem (u := v) (m := []) absent
        rwa [List.append_nil] at last
      rw [setAll_cons, step, ih (by simpa using distinct), List.append_assoc, List.singleton_append]

end Xml

namespace Document

variable {d d' : Document} {h x : Handle} {markup : String}

/-- The documents that come of markup, by edits and copies. -/
inductive Loaded : Document → Prop
  | parse {markup : String} {d : Document} (read : parse markup = .ok d) : Loaded d
  | edit {d d' : Document} {answer : Edit.Answer} (e : Edit) (before : Loaded d)
    (made : e.apply d = .ok (d', answer)) : Loaded d'
  | copy {d : Document} (before : Loaded d) : Loaded d.copy

/-- Whether the attributes of all elements are settled. -/
def Settled (d : Document) : Prop :=
  ∀ h, Xml.Settled (d.element h).attributes

theorem element_of_size_le (outside : d.elements.size ≤ h) : d.element h = { name := "" } := by
  rw [element, Array.getElem?_eq_none outside, Option.getD_none]

theorem legible_of_parse (read : parse markup = .ok d) (within : h < d.elements.size) : (d.element h).Legible := by
  have tracked := (parse_reachable read).wellFormed.mem_or_mem within
  have legible := (consists_of_parse read).elements
  obtain ⟨-, tree, -, rfl, -⟩ := parse_eq_ok_iff.mp read
  exact legible h (tracked.resolve_right List.not_mem_nil)

theorem element_move? {side : Forest.Side} {r : Handle} (moved : d.move? side h r = some d') :
    d'.element x = d.element x := by
  obtain ⟨-, outline, -, rfl⟩ := move?_eq_some_iff.mp moved
  rfl

namespace Settled

theorem parse (read : parse markup = .ok d) : d.Settled := by
  intro h
  by_cases within : h < d.elements.size
  · exact .of_legible (legible_of_parse read within)
  · rw [element_of_size_le (Nat.le_of_not_lt within)]
    exact .nil

theorem copy (settled : d.Settled) : d.copy.Settled := by
  intro h
  by_cases attached : h ∈ d.handles
  · rw [element_copy attached]
    exact settled h
  · have bare : (d.copy.element h).attributes = [] := by
      simp only [element, Document.copy, Array.getElem?_mapIdx, attached, if_false]
      cases d.elements[h]? <;> rfl
    rw [bare]
    exact .nil

theorem mapElement (settled : d.Settled) (hh : h < d.elements.size) {f : Xml.Element → Xml.Element}
    (kept : ∀ e, Xml.Settled e.attributes → Xml.Settled (f e).attributes) : (d.mapElement h f).Settled := by
  intro x
  rw [element_mapElement f hh]
  split
  · exact kept _ (settled x)
  · exact settled x

theorem edit {e : Edit} {answer : Edit.Answer} (settled : d.Settled) (made : e.apply d = .ok (d', answer)) :
    d'.Settled := by
  cases edited_of_apply made with
  | same => exact settled
  | set hh name value => exact settled.mapElement hh fun _ before => before.set name value
  | remove hh name => exact settled.mapElement hh fun _ before => before.filter _
  | setText hh text => exact settled.mapElement hh (f := fun e => { e with text }) fun _ before => before
  | appendChild _ tag attributes text =>
      intro x
      rw [appendChild, element_appendElement]
      split
      · exact Xml.Settled.nil.foldl attributes
      · exact settled x
  | move moved =>
      intro x
      rw [element_move? moved]
      exact settled x

end Settled

theorem Loaded.settled (loaded : d.Loaded) : d.Settled := by
  induction loaded with
  | parse read => exact .parse read
  | edit e _ made ih => exact ih.edit made
  | copy _ ih => exact ih.copy

/-! ## What is listed -/

/-- An attribute with a familiar name is found under the name it is listed by. -/
theorem get?_listed (settled : d.Settled) {a : String × String} (mem : a ∈ (d.element h).attributes)
    (familiar : Xml.Familiar a.1) : d.get? h (Xml.listed a.1) = some a.2 := by
  rw [get?, familiar.qualify_listed ((settled h).qualified a mem), Xml.Element.attribute?,
    lookup_eq_some_iff (settled h).distinct]
  exact mem

/-- The attributes of an element under the names they are listed by. -/
def listedAttributes (d : Document) (h : Handle) : List (String × String) :=
  (d.element h).attributes.map fun a => (Xml.listed a.1, a.2)

theorem attributes_eq (closed : ∀ a ∈ (d.element h).attributes, Xml.Closed a.1) :
    d.attributes h = .ok (Xml.setAll [] (d.listedAttributes h)) := by
  have named : ∀ a ∈ (d.element h).attributes, (do pure (← Xml.displayName a.1, a.2)) =
      Except.ok (ε := Xml.NameError) (Xml.listed a.1, a.2) := by
    intro a mem
    rw [(closed a mem).displayName_eq]
    rfl
  rw [attributes, Xml.mapM_eq_ok_map named]
  rfl

/-- What is listed of an element: entries of its attributes, among them all whose listed names no other attribute
has. The familiar ones are found under their listed names, the others are listed by their labels. -/
structure Lists (d : Document) (h : Handle) (all : List (String × String)) : Prop where
  origin : ∀ entry ∈ all, ∃ a ∈ (d.element h).attributes, entry = (Xml.listed a.1, a.2) ∧
    (Xml.Familiar a.1 → d.get? h entry.1 = some entry.2) ∧ (¬ Xml.Familiar a.1 → entry.1 = Xml.localName a.1)
  single : ∀ a ∈ (d.element h).attributes,
    (∀ b ∈ (d.element h).attributes, Xml.listed b.1 = Xml.listed a.1 → b = a) → (Xml.listed a.1, a.2) ∈ all
  whole : ((d.element h).attributes.map fun a => Xml.listed a.1).Nodup →
    all.length = (d.element h).attributes.length

theorem lists_setAll (settled : d.Settled) (closed : ∀ a ∈ (d.element h).attributes, Xml.Closed a.1) :
    d.Lists h (Xml.setAll [] (d.listedAttributes h)) where
  origin entry mem := by
    obtain ⟨a, inside, rfl⟩ := List.mem_map.mp ((Xml.mem_of_mem_setAll mem).resolve_left List.not_mem_nil)
    exact ⟨a, inside, rfl, get?_listed settled inside, Xml.listed_of_not_familiar (closed a inside)⟩
  single a inside alone := by
    refine Xml.mem_setAll (.inr (List.mem_map.mpr ⟨a, inside, rfl⟩)) fun entry mem same => ?_
    obtain ⟨b, inside', rfl⟩ := List.mem_map.mp mem
    rw [alone b inside' same]
  whole apart := by
    have distinct : ((d.listedAttributes h).map Prod.fst).Nodup := by
      rwa [listedAttributes, List.map_map]
    have listed : Xml.setAll [] (d.listedAttributes h) = [] ++ d.listedAttributes h := Xml.setAll_of_nodup distinct
    rw [listed, List.nil_append, listedAttributes, List.length_map]

/-- Familiar names are listed by different ones. -/
theorem apart_of_familiar (settled : d.Settled) (familiar : ∀ a ∈ (d.element h).attributes, Xml.Familiar a.1) :
    ((d.element h).attributes.map fun a => Xml.listed a.1).Nodup := by
  have back : ((d.element h).attributes.map fun a => Xml.listed a.1).map Xml.qualify =
      (d.element h).attributes.map Prod.fst := by
    rw [List.map_map]
    exact List.map_congr_left fun a mem => (familiar a mem).qualify_listed ((settled h).qualified a mem)
  have distinct := (settled h).distinct
  rw [← back] at distinct
  exact distinct.of_map _

/-- In documents as they were read all names can be listed. -/
theorem closed_of_parse (read : parse markup = .ok d) : ∀ a ∈ (d.element h).attributes, Xml.Closed a.1 := by
  intro a mem
  by_cases within : h < d.elements.size
  · obtain ⟨uri, label, expansion⟩ := ((legible_of_parse read within).attributes a mem).1
    exact expansion.closed
  · rw [element_of_size_le (Nat.le_of_not_lt within)] at mem
    cases mem

/-- Where all names of an element are familiar, all its attributes are listed, and each is found under the name it is
listed by. Otherwise attributes in other namespaces are listed by their labels. -/
theorem attributes_addressable (loaded : d.Loaded) (h : Handle) :
    ((∀ a ∈ (d.element h).attributes, Xml.Familiar a.1) →
      ∃ all, d.attributes h = .ok all ∧ all.length = (d.element h).attributes.length ∧
        ∀ entry ∈ all, d.get? h entry.1 = some entry.2) ∧
    ((∀ a ∈ (d.element h).attributes, Xml.Closed a.1) → ∃ all, d.attributes h = .ok all ∧ d.Lists h all) ∧
    ((∃ markup, parse markup = .ok d) → ∀ a ∈ (d.element h).attributes, Xml.Closed a.1) := by
  have settled := loaded.settled
  refine ⟨fun familiar => ?_, fun closed => ?_, fun ⟨markup, read⟩ => closed_of_parse read⟩
  · have closed : ∀ a ∈ (d.element h).attributes, Xml.Closed a.1 := fun a mem => (familiar a mem).closed
    have lists := lists_setAll settled closed
    refine ⟨_, attributes_eq closed, lists.whole (apart_of_familiar settled familiar), fun entry mem => ?_⟩
    obtain ⟨a, inside, -, found, -⟩ := lists.origin entry mem
    exact found (familiar a inside)
  · exact ⟨_, attributes_eq closed, lists_setAll settled closed⟩

/-- A link, and a rectangle with a label in a namespace of its own. -/
def labelMarkup : String :=
  "<svg xmlns:a=\"u\" xmlns:l=\"http://www.w3.org/1999/xlink\"><a id=\"x\" l:href=\"#y\"/>" ++
    "<rect id=\"y\" a:label=\"z\"/></svg>"

theorem label_addressable : ∃ d, parse labelMarkup = .ok d ∧ d.Loaded ∧
    d.attributes 1 = .ok [("id", "x"), ("xlink:href", "#y")] ∧
    (∀ entry ∈ [("id", "x"), ("xlink:href", "#y")], d.get? 1 entry.1 = some entry.2) ∧
    d.attributes 2 = .ok [("id", "y"), ("label", "z")] ∧ d.Lists 2 [("id", "y"), ("label", "z")] := by
  have read : (parse labelMarkup).toOption.any (fun d =>
      decide ((d.attributes 1).toOption = some [("id", "x"), ("xlink:href", "#y")] ∧
        (d.attributes 2).toOption = some [("id", "y"), ("label", "z")] ∧
        ∀ a ∈ (d.element 1).attributes, Xml.Familiar a.1)) = true := by decide +kernel
  obtain ⟨d, parsed, found⟩ := exists_of_parsed read
  obtain ⟨link, label, familiar⟩ := of_decide_eq_true found
  have loaded : d.Loaded := .parse parsed
  obtain ⟨all, listed, -, addressed⟩ := (attributes_addressable loaded 1).1 familiar
  obtain ⟨-, others, closed⟩ := attributes_addressable loaded 2
  obtain ⟨all', listed', lists⟩ := others (closed ⟨_, parsed⟩)
  rw [listed] at link
  rw [listed'] at label
  obtain rfl := Option.some.inj link
  obtain rfl := Option.some.inj label
  exact ⟨d, parsed, loaded, listed, addressed, listed', lists⟩

/-- An attribute in a namespace of its own is not found under the name it is listed by. -/
theorem label_not_addressable : ¬ ∀ (markup : String) (d : Document) (h : Handle), parse markup = .ok d →
    ∃ all, d.attributes h = .ok all ∧ all.length = (d.element h).attributes.length ∧
      ∀ entry ∈ all, d.get? h entry.1 = some entry.2 := by
  intro addresses
  have read : (parse labelMarkup).toOption.any (fun d =>
      decide ((d.attributes 2).toOption = some [("id", "y"), ("label", "z")] ∧ d.get? 2 "label" = none)) = true := by
    decide +kernel
  obtain ⟨d, parsed, found⟩ := exists_of_parsed read
  obtain ⟨label, missing⟩ := of_decide_eq_true found
  obtain ⟨all, listed, -, addressed⟩ := addresses labelMarkup d 2 parsed
  rw [listed] at label
  obtain rfl := Option.some.inj label
  have shown := addressed ("label", "z") (by simp)
  rw [missing] at shown
  cases shown

end Document

end SvgForm
