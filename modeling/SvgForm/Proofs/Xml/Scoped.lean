import SvgForm.Proofs.Xml.Lasting
/-! # Names in their scope

Declarations bind namespaces for an element and what is below it. A tree of clean texts is read from its markup
exactly if every name of it is one that markup may have, and has a namespace where it stands.
-/

namespace SvgForm.Xml

/-- The attributes of an element are read as `own`. What these declare is bound inside the element: there its name
and those of its other attributes have namespaces, and no two attributes are the same. -/
structure Spelled.Named (b : Bindings) (s : Spelled) (inner : Bindings) (own : List (QName × String)) : Prop where
  reads : List.Forall₂ Reads s.attributes own
  values : ∀ a ∈ s.attributes, Clean a.2.toList
  apart : (own.map Prod.fst).Nodup
  bound : b.declareAll? (own.map fun a => (a.1, a.2.toList)) = some inner
  name : (inner.elementName? s.name).isSome
  attributes : ∀ a ∈ own, a.1.declaresNamespace = false → (inner.attributeName? a.1).isSome
  distinct : ((own.filter fun a => !a.1.declaresNamespace).map fun a => inner.attributeName? a.1).Nodup

/-- Trees whose names have namespaces where they stand. -/
inductive WellNamed : Bindings → Forest Spelled → Prop
  | nil {b : Bindings} : WellNamed b .nil
  | node {b inner : Bindings} {s : Spelled} {own : List (QName × String)} {children siblings : Forest Spelled}
    (here : s.Named b inner own) (below : WellNamed inner children) (after : WellNamed b siblings) :
    WellNamed b (.node s children siblings)

variable {d : Declarations} {b inner : Bindings} {s : Spelled} {w : List Char} {q : QName}
  {own : List (QName × String)} {made : Element} {f children siblings : Forest Spelled} {g : Forest Element}

/-! ## Elements -/

theorem marks_of_readName? (read : readName? w = some q) : '=' ∉ w ∧ '>' ∉ w := by
  obtain ⟨proper, before, after, rfl, blank⟩ := of_readName? read
  have absent {c : Char} (mark : ¬ (isNameChar c = true ∨ c = ':') ∧ isSpace c = false) :
      c ∉ before ++ (q.spelling ++ after) := by
    intro mem
    rw [List.mem_append, List.mem_append] at mem
    have around : c ∉ before ++ after := fun mem => by simp [blank c mem] at mark
    rw [List.mem_append, not_or] at around
    exact mark.1 (proper.readable.mem_spelling ((mem.resolve_left around.1).resolve_right around.2))
  exact ⟨absent (by decide), absent (by decide)⟩

/-- Names are found for all attributes, or one of them has none. -/
theorem exists_named_iff : (∃ attributes : List (String × String),
      List.Forall₂ (fun a a' => inner.attributeName? a.1 = some a'.1 ∧ a'.2 = a.2) own attributes ∧
        (attributes.map Prod.fst).Nodup) ↔
    (∀ a ∈ own, (inner.attributeName? a.1).isSome) ∧ (own.map fun a => inner.attributeName? a.1).Nodup := by
  have names {attributes : List (String × String)}
      (named : List.Forall₂ (fun a a' => inner.attributeName? a.1 = some a'.1 ∧ a'.2 = a.2) own attributes) :
      own.map (fun a => inner.attributeName? a.1) = (attributes.map Prod.fst).map some := by
    induction named with
    | nil => rfl
    | cons first _ ih => rw [List.map_cons, List.map_cons, List.map_cons, first.1, ih]
  constructor
  · rintro ⟨attributes, named, distinct⟩
    refine ⟨fun a mem => ?_, ?_⟩
    · have listed := List.mem_map_of_mem (f := fun a => inner.attributeName? a.1) mem
      rw [names named] at listed
      obtain ⟨name, -, same⟩ := List.mem_map.mp listed
      rw [← same]
      rfl
    · rw [names named]
      exact distinct.map fun _ _ => Option.some.inj
  · rintro ⟨all, distinct⟩
    have named : List.Forall₂ (fun a a' => inner.attributeName? a.1 = some a'.1 ∧ a'.2 = a.2) own
        (own.map fun a => ((inner.attributeName? a.1).getD "", a.2)) := by
      refine List.forall₂_map_right_iff.mpr (List.forall₂_same.mpr fun a mem => ⟨?_, rfl⟩)
      obtain ⟨name, found⟩ := Option.isSome_iff_exists.mp (all a mem)
      rw [found, Option.getD_some]
    exact ⟨_, named, List.Nodup.of_map some (names named ▸ distinct)⟩

/-- The draft of an element with clean texts is resolved if the names of the element have namespaces. -/
theorem Spelled.named_iff (none : d.attributes = []) (text : Clean s.text.toList) (tail : Clean s.tail.toList) :
    (∃ made e, s.normal.draft? = some e ∧ e.resolve? d b = some (made, inner)) ↔ ∃ own, s.Named b inner own := by
  have others (own : List (QName × String)) {attributes : List (String × String)} :
      List.Forall₂ (fun a (a' : String × String) => inner.attributeName? a.1 = some a'.1 ∧ a'.2 = String.ofList a.2)
          ((own.map fun a => (a.1, a.2.toList)).filter fun a => !a.1.declaresNamespace) attributes ↔
        List.Forall₂ (fun a a' => inner.attributeName? a.1 = some a'.1 ∧ a'.2 = a.2)
          (own.filter fun a => !a.1.declaresNamespace) attributes := by
    rw [List.filter_map, List.forall₂_map_left_iff]
    simp [Function.comp_def]
  simp only [draft?_normal_eq_some_iff, Draft.resolve?_eq_some_iff, ← clean_iff]
  constructor
  · rintro ⟨made, _, ⟨own, reads, values, -, -, rfl⟩, all, given, resolved⟩
    rw [attributesOf?_chars none rfl] at given
    split at given
    case isFalse => cases given
    case isTrue apart =>
      obtain rfl := Option.some.inj given
      obtain ⟨found, distinct⟩ := exists_named_iff.mp ⟨_, (others own).mp resolved.attributes, resolved.distinct⟩
      refine ⟨own, reads, values, apart, resolved.bound, Option.isSome_of_eq_some resolved.name, ?_, distinct⟩
      exact fun a mem quiet => found a (List.mem_filter.mpr ⟨mem, by simp [quiet]⟩)
  · rintro ⟨own, named⟩
    obtain ⟨attributes, found, distinct⟩ := exists_named_iff.mpr
      ⟨fun a mem => named.attributes a (List.mem_filter.mp mem).1 (by simpa using (List.mem_filter.mp mem).2),
        named.distinct⟩
    obtain ⟨name, called⟩ := Option.isSome_iff_exists.mp named.name
    refine ⟨⟨name, attributes, normalText s.text, normalText s.tail⟩, _,
      ⟨own, named.reads, named.values, text, tail, rfl⟩, own.map fun a => (a.1, a.2.toList), ?_, ?_⟩
    · rw [attributesOf?_chars none rfl, if_pos named.apart]
    · exact ⟨named.bound, called, (others own).mpr found, distinct, rfl, rfl⟩

/-! ## Trees -/

/-- A tree of clean texts is read again if its names have namespaces where they stand. -/
theorem exists_reread?_iff (none : d.attributes = [])
    (clean : ∀ s ∈ f.toList, Clean s.text.toList ∧ Clean s.tail.toList) :
    (∃ g, reread? d b f = some g) ↔ WellNamed b f := by
  induction f generalizing b with
  | nil => exact ⟨fun _ => .nil, fun _ => ⟨.nil, reread?_nil_iff.mpr rfl⟩⟩
  | node s children siblings ihc ihs =>
      obtain ⟨own, clean⟩ := List.forall_mem_cons.mp clean
      obtain ⟨inside, later⟩ := List.forall_mem_append.mp clean
      constructor
      · rintro ⟨_, read⟩
        obtain ⟨made, inner, below, after, draft, children, siblings, rfl⟩ := reread?_node_iff.mp read
        obtain ⟨all, here⟩ := (Spelled.named_iff none own.1 own.2).mp ⟨made, draft⟩
        exact .node here ((ihc inside).mp ⟨below, children⟩) ((ihs later).mp ⟨after, siblings⟩)
      · rintro (_ | ⟨here, children, siblings⟩)
        obtain ⟨made, draft⟩ := (Spelled.named_iff none own.1 own.2).mpr ⟨_, here⟩
        obtain ⟨below, children⟩ := (ihc inside).mpr children
        obtain ⟨after, siblings⟩ := (ihs later).mpr siblings
        exact ⟨_, reread?_node_iff.mpr ⟨made, _, below, after, draft, children, siblings, rfl⟩⟩

/-- The root keeps its label. -/
theorem localName_of_reread? (proper : s.name.IsProper) (none : d.attributes = [])
    (read : reread? d .initial (.node s children siblings) = some g) :
    ∃ made below after, g = .node made below after ∧ localName made.name = .ofList s.name.label := by
  obtain ⟨made, inner, below, after, ⟨e, draft, read⟩, -, -, rfl⟩ := reread?_node_iff.mp read
  refine ⟨made, below, after, rfl, ?_⟩
  obtain ⟨own, reads, values, -, -, rfl⟩ := Spelled.draft?_normal_eq_some_iff.mp draft
  obtain ⟨all, given, resolved⟩ := Draft.resolve?_eq_some_iff.mp read
  rw [attributesOf?_chars none rfl] at given
  split at given
  case isFalse => cases given
  case isTrue =>
    obtain rfl := Option.some.inj given
    have chars : ∀ a ∈ own.map fun a => (a.1, a.2.toList), Clean a.2 := by
      refine List.forall_mem_map.mpr fun a mem => clean_iff.mpr ?_
      obtain ⟨a', listed, same⟩ := exists_of_mem_right reads mem
      rw [same.2]
      exact values a' listed
    have clean := Bindings.Clean.initial.declareAll? chars resolved.bound
    obtain ⟨uri, expansion⟩ := clean.elementName? proper resolved.name
    exact expansion.localName_eq

theorem WellNamed.reads (named : WellNamed b f) : ∀ s ∈ f.toList, ∀ a ∈ s.attributes, ∃ q, readName? a.1 = some q := by
  induction named with
  | nil => exact fun _ mem => absurd mem List.not_mem_nil
  | node here _ _ ihc ihs =>
      refine List.forall_mem_cons.mpr ⟨fun a mem => ?_, List.forall_mem_append.mpr ⟨ihc, ihs⟩⟩
      obtain ⟨a', -, read⟩ := exists_of_mem_right here.reads.flip mem
      exact ⟨a'.1, read.1⟩

/-! ## Trees that are written -/

/-- An element whose own name can be written, and whose texts and values markup may hold. -/
structure Element.Clean (e : Element) : Prop where
  name : ∃ uri label, Expansion e.name uri label ∧ isLabel label.toList = true
  values : ∀ a ∈ e.attributes, Xml.Clean a.2.toList
  text : Xml.Clean e.text.toList
  tail : Xml.Clean e.tail.toList

theorem Element.Legible.clean {e : Element} (legible : e.Legible) : e.Clean :=
  ⟨legible.name, fun a mem => (legible.attributes a mem).2.2, legible.text, legible.tail⟩

/-- Each attribute is written as one: its label holds no mark that ends a name or the whole tag. -/
def Element.Whole (e : Element) : Prop :=
  ∀ a ∈ e.attributes, ∀ uri label, splitName a.1 = .ok (uri, label) → '=' ∉ label.toList ∧ '>' ∉ label.toList

/-- The trees as they are written, with the declarations of namespaces at the first root. -/
def Spaces.spelledAll (met : Spaces) : Forest Element → Forest Spelled
  | .nil => .nil
  | .node e children siblings =>
    .node ((met.spelled e).declaring met.declared) (children.map met.spelled) (siblings.map met.spelled)

variable {names : List String} {met : Spaces} {name label : String} {uri? : Option String} {e : Element}
  {below : Forest Element}

/-- Nothing but the label brings a mark into a name. -/
theorem Spaces.Meets.mem_shown_iff {c : Char} (meets : Spaces.Meets names met) (mem : name ∈ names)
    (split : splitName name = .ok (uri?, label)) (mark : isNameChar c = false ∧ c ≠ ':') :
    c ∈ (met.shown name).spelling ↔ c ∈ label.toList := by
  rw [Spaces.shown_of_splitName split, QName.spelling, Spaces.label_written]
  split
  case h_1 => rfl
  case h_2 space spaced =>
    have isLabel := (meets.isLabel_space_written mem split spaced).1
    have absent : c ∉ space := fun inside => by
      rw [isNameChar_of_mem_label isLabel inside] at mark
      cases mark.1
    simp [absent, mark.2]

theorem Spaces.Meets.marks_iff (meets : Spaces.Meets names met) (listed : ∀ a ∈ e.attributes, a.1 ∈ names) :
    (∀ a ∈ e.attributes, '=' ∉ (met.shown a.1).spelling ∧ '>' ∉ (met.shown a.1).spelling) ↔ e.Whole := by
  have equals : isNameChar '=' = false ∧ '=' ≠ ':' := by decide
  have angle : isNameChar '>' = false ∧ '>' ≠ ':' := by decide
  refine forall₂_congr fun a mem => ?_
  obtain ⟨⟨uri, label⟩, split⟩ := meets.parted a.1 (listed a mem)
  rw [meets.mem_shown_iff (listed a mem) split equals, meets.mem_shown_iff (listed a mem) split angle, split]
  simp only [Except.ok.injEq, Prod.mk.injEq]
  exact ⟨fun marks _ _ same => same.2 ▸ marks, fun marks => marks uri label ⟨rfl, rfl⟩⟩

theorem Spaces.forall₂_spelledAll (met : Spaces) (f : Forest Element) : List.Forall₂
    (fun x s => s.text = x.text ∧ s.tail = x.tail ∧ (met.spelled x).attributes ⊆ s.attributes) f.toList
      (met.spelledAll f).toList := by
  have spelled (f : Forest Element) : List.Forall₂
      (fun x s => s.text = x.text ∧ s.tail = x.tail ∧ (met.spelled x).attributes ⊆ s.attributes) f.toList
        (f.map met.spelled).toList := by
    rw [Forest.toList_map]
    exact List.forall₂_map_right_iff.mpr (List.forall₂_same.mpr fun _ _ => ⟨rfl, rfl, List.Subset.refl _⟩)
  cases f with
  | nil => exact .nil
  | node e children siblings =>
      exact .cons ⟨rfl, rfl, List.subset_append_right _ _⟩ (List.rel_append (spelled children) (spelled siblings))

/-- Names that have namespaces where they stand are written without marks. -/
theorem whole_of_wellNamed {f : Forest Element} (meets : Spaces.Meets (namesOf f.toList) met)
    (named : WellNamed b (met.spelledAll f)) : ∀ x ∈ f.toList, x.Whole := by
  intro x mem
  refine (meets.marks_iff (mem_namesOf_attribute mem)).mp fun a there => ?_
  obtain ⟨s, listed, -, -, attributes⟩ := exists_of_mem_right (met.forall₂_spelledAll f).flip mem
  obtain ⟨q, read⟩ := named.reads s listed _ (attributes (List.mem_map_of_mem there))
  exact marks_of_readName? read

section

variable (meets : Spaces.Meets (namesOf (Forest.node e below .nil).toList) met)
  (clean : ∀ x ∈ (Forest.node e below .nil).toList, x.Clean)

include meets clean

theorem proper_of_clean : ∀ x ∈ (Forest.node e below .nil).toList, (met.shown x.name).IsProper := by
  intro x mem
  obtain ⟨uri, label, expansion, start⟩ := (clean x mem).name
  exact (meets.proper_shown_iff (mem_namesOf mem _ List.mem_cons_self) expansion).mpr start

/-- The markup of a tree is read if the names of the tree have namespaces where they stand. -/
theorem exists_root?_iff (last : e.tail = "") (whole : ∀ x ∈ (Forest.node e below .nil).toList, x.Whole) :
    (∃ g, root? (markup (met.spelledAll (.node e below .nil))) = some g) ↔
      WellNamed .initial (met.spelledAll (.node e below .nil)) := by
  have plain := meets.sound.plain_tree (proper_of_clean meets clean) fun x mem =>
    (meets.marks_iff (mem_namesOf_attribute mem)).mpr (whole x mem)
  obtain ⟨d, -, none, read⟩ := root?_markup plain last
  have texts : ∀ s ∈ (met.spelledAll (.node e below .nil)).toList, Clean s.text.toList ∧ Clean s.tail.toList := by
    intro s mem
    obtain ⟨x, listed, text, tail, -⟩ := exists_of_mem_right (met.forall₂_spelledAll _) mem
    rw [text, tail]
    exact ⟨(clean x listed).text, (clean x listed).tail⟩
  rw [← exists_reread?_iff none texts]
  exact exists_congr fun g => Eq.congr_left read

/-- The root of a tree that is read keeps its label. -/
theorem localName_of_root? {g : Forest Element} (last : e.tail = "")
    (whole : ∀ x ∈ (Forest.node e below .nil).toList, x.Whole)
    (read : root? (markup (met.spelledAll (.node e below .nil))) = some g) :
    ∃ made children siblings, g = .node made children siblings ∧ localName made.name = localName e.name := by
  have proper := proper_of_clean meets clean
  have plain := meets.sound.plain_tree proper fun x mem =>
    (meets.marks_iff (mem_namesOf_attribute mem)).mpr (whole x mem)
  obtain ⟨d, -, none, reading⟩ := root?_markup plain last
  obtain ⟨made, children, siblings, rfl, same⟩ :=
    localName_of_reread? (s := (met.spelled e).declaring met.declared) (proper e List.mem_cons_self) none
      (reading.symm.trans read)
  refine ⟨made, children, siblings, rfl, same.trans ?_⟩
  obtain ⟨uri, label, expansion, -⟩ := (clean e List.mem_cons_self).name
  have shown : ((met.spelled e).declaring met.declared).name = met.written (uri, label) :=
    Spaces.shown_of_splitName expansion.splitName_eq
  rw [shown, Spaces.label_written, String.ofList_toList, expansion.localName_eq]

end

/-- Names that last have namespaces wherever they are written. -/
theorem wellNamed_of_lasts (meets : Spaces.Meets (namesOf (Forest.node e below .nil).toList) met)
    (legible : ∀ x ∈ (Forest.node e below .nil).toList, x.Legible) (last : e.tail = "")
    (names : ∀ x ∈ (Forest.node e below .nil).toList, ∀ a ∈ x.attributes, lasts a.1 = true) :
    WellNamed .initial (met.spelledAll (.node e below .nil)) := by
  obtain ⟨g, alike⟩ := Forest.exists_alike_iff.mpr fun x mem =>
    let ⟨_, readAs, _⟩ := exists_readAs meets (mem_namesOf mem) (legible x mem) (names x mem)
    ⟨_, readAs⟩
  have read := (root?_markup_of_lasts meets legible last names).mpr alike
  have whole : ∀ x ∈ (Forest.node e below .nil).toList, x.Whole := fun x mem =>
    (meets.marks_iff (mem_namesOf_attribute mem)).mp (marks_of_legible legible meets x mem)
  exact (exists_root?_iff meets (fun x mem => (legible x mem).clean) last whole).mp ⟨g, read⟩

end SvgForm.Xml
