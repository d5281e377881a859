import SvgForm.Proofs.Document.RoundTrip
import SvgForm.Proofs.Xml.Scoped
/-! # Documents that are read again

A document of clean elements is written so that its markup is read again exactly if its names have namespaces where
they are written.
-/

namespace SvgForm.Document

variable {d : Document} {P : Xml.Element → Prop}

/-- Its markup is read again. -/
def Reloads (d : Document) : Prop :=
  ∃ written d', d.serialize = .ok written ∧ parse written = .ok d'

instance (d : Document) : Decidable d.Reloads :=
  decidable_of_iff ((d.serialize.toOption.bind fun written => (parse written).toOption).isSome) <| by
    rw [Reloads]
    cases written : d.serialize with
    | error e => simp [Except.toOption]
    | ok markup =>
        cases read : parse markup with
        | error e => simp [Except.toOption, read]
        | ok d' => simp [Except.toOption, read]

/-- A document whose root is called `svg`, and all of whose elements are such. -/
structure Consists (P : Xml.Element → Prop) (d : Document) : Prop where
  wellFormed : d.WellFormed
  named : d.tag root = "svg"
  last : (d.element root).tail = ""
  elements : ∀ h ∈ d.handles, P (d.element h)

theorem Consists.imp {Q : Xml.Element → Prop} (consists : d.Consists P) (also : ∀ e, P e → Q e) : d.Consists Q :=
  ⟨consists.wellFormed, consists.named, consists.last, fun h mem => also _ (consists.elements h mem)⟩

theorem forall_toTree : (∀ h ∈ d.handles, P (d.element h)) ↔ ∀ e ∈ d.toTree.toList, P e := by
  rw [← List.forall_mem_map, map_element_handles]

theorem Consists.toTree_eq (consists : d.Consists P) : ∃ children, d.toTree = .node (d.element root) children .nil := by
  obtain ⟨children, rooted⟩ := consists.wellFormed.rooted
  exact ⟨children.map d.element, by rw [toTree, rooted]; rfl⟩

/-- Documents that are read consist of legible elements. -/
theorem consists_of_parse {markup : String} (parsed : parse markup = .ok d) : d.Consists Xml.Element.Legible := by
  have wellFormed := (parse_reachable parsed).wellFormed
  obtain ⟨e, children, met, rfl, named, last, legible, -, -⟩ := exists_spelled parsed
  exact ⟨wellFormed, named, last, forall_elements.mpr legible⟩

/-- All namespaces of the document can be met, and where it is written by their short forms its names have
namespaces. -/
def WellNamed (d : Document) : Prop :=
  ∃ met, (Xml.namesOf d.toTree.toList).foldlM Xml.Spaces.meet [] = .ok met ∧
    Xml.WellNamed .initial (met.spelledAll d.toTree)

theorem exists_parse_iff {e : Xml.Element} {children : Forest Xml.Element} {met : Xml.Spaces}
    (meets : Xml.Spaces.Meets (Xml.namesOf (Forest.node e children .nil).toList) met)
    (clean : ∀ x ∈ (Forest.node e children .nil).toList, x.Clean) (named : Xml.localName e.name = "svg")
    (last : e.tail = "") (whole : ∀ x ∈ (Forest.node e children .nil).toList, x.Whole) :
    (∃ d', parse (.ofList (Xml.markup (met.spelledAll (.node e children .nil)))) = .ok d') ↔
      Xml.WellNamed .initial (met.spelledAll (.node e children .nil)) := by
  rw [← Xml.exists_root?_iff meets clean last whole]
  simp only [parse_eq_ok_iff, String.toList_ofList]
  constructor
  · rintro ⟨d', -, tree, read, -⟩
    exact ⟨tree, read⟩
  · rintro ⟨tree, read⟩
    obtain ⟨made, below, after, rfl, same⟩ := Xml.localName_of_root? meets clean last whole read
    exact ⟨_, rfl, _, read, rfl, same.trans named⟩

/-- A document of clean elements is read again, and no attribute of it is written as more than one, exactly if its
names have namespaces where they are written. -/
theorem reloads_iff (clean : d.Consists Xml.Element.Clean) :
    d.Reloads ∧ (∀ h ∈ d.handles, (d.element h).Whole) ↔ d.WellNamed := by
  have elements := forall_toTree.mp clean.elements
  obtain ⟨children, tree⟩ := clean.toTree_eq
  rw [forall_toTree, Reloads, WellNamed, serialize]
  rw [tree] at elements ⊢
  constructor
  · rintro ⟨⟨written, d', made, read⟩, whole⟩
    cases met : (Xml.namesOf (Forest.node (d.element root) children .nil).toList).foldlM Xml.Spaces.meet [] with
    | error e => simp [Xml.write, met, bind, Except.bind] at made
    | ok met =>
        rw [Xml.write_eq met] at made
        obtain rfl := Except.ok.inj made
        have meets := Xml.Spaces.Meets.nil.foldlM met
        exact ⟨_, rfl, (exists_parse_iff meets elements clean.named clean.last whole).mp ⟨d', read⟩⟩
  · rintro ⟨met, met_eq, named⟩
    have meets := Xml.Spaces.Meets.nil.foldlM met_eq
    have whole := Xml.whole_of_wellNamed meets named
    obtain ⟨d', read⟩ := (exists_parse_iff meets elements clean.named clean.last whole).mpr named
    exact ⟨⟨_, d', Xml.write_eq met_eq, read⟩, whole⟩

theorem wellNamed_of_lasts (legible : d.Consists Xml.Element.Legible)
    (names : ∀ h ∈ d.handles, ∀ a ∈ (d.element h).attributes, Xml.lasts a.1 = true) : d.WellNamed := by
  have elements := forall_toTree.mp legible.elements
  rw [forall_toTree (P := fun e => ∀ a ∈ e.attributes, Xml.lasts a.1 = true)] at names
  obtain ⟨children, tree⟩ := legible.toTree_eq
  rw [WellNamed]
  rw [tree] at elements names ⊢
  obtain ⟨met, all⟩ := Xml.exists_meets_of_legible elements
  exact ⟨met, all, Xml.wellNamed_of_lasts (Xml.Spaces.Meets.nil.foldlM all) elements legible.last names⟩

end SvgForm.Document
