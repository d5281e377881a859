import SvgForm.Proofs.Xml.Declared
import SvgForm.Proofs.Xml.Spaces
import SvgForm.Proofs.Xml.Resolve
/-! # What documents are made of

The elements of a document that was read have names with labels in namespaces that can be declared again, and hold
no character that markup may not hold.
-/

namespace SvgForm.Xml

/-- An element as documents have it. -/
structure Element.Legible (e : Element) : Prop where
  name : ∃ uri label, Expansion e.name uri label ∧ isLabel label.toList = true
  attributes : ∀ a ∈ e.attributes, (∃ uri label, Expansion a.1 uri label) ∧ a.1 ≠ "xmlns" ∧ Clean a.2.toList
  distinct : (e.attributes.map Prod.fst).Nodup
  text : Clean e.text.toList
  tail : Clean e.tail.toList

variable {d : Declarations} {b inner : Bindings} {e : Draft} {q : QName} {uri : List Char}

/-! ## Bindings -/

/-- Every namespace that is bound can be declared, and no short form is unbound. -/
def Bindings.Clean (b : Bindings) : Prop :=
  ∀ p ∈ b, Xml.Clean p.2 ∧ (p.2 ≠ [] → Spaces.Declarable (.ofList p.2)) ∧ (p.1 ≠ none → p.2 ≠ [])

theorem Bindings.Clean.initial : Bindings.initial.Clean := by
  rintro _ (_ | ⟨_, ⟨⟩⟩)
  exact ⟨by decide, fun _ => by decide, fun _ => by decide⟩

theorem of_declare? {b' : Bindings} (bound : b.declare? q uri = some b') :
    b' = (q.space.map fun _ => q.label, uri) :: b ∧ (q.space ≠ none → uri ≠ []) ∧ uri ≠ xmlnsNamespace.toList ∧
      '\x7d' ∉ uri := by
  simp only [Bindings.declare?] at bound
  split at bound
  case isTrue => cases bound
  split at bound
  case isTrue => cases bound
  split at bound
  case isTrue => cases bound
  split at bound
  case isTrue => cases bound
  case isFalse unbinds _ _ other =>
    split at bound
    case isTrue => cases bound
    case isFalse closed =>
      refine ⟨(Option.some.inj bound).symm, fun spaced none => unbinds ⟨?_, none⟩, other, closed⟩
      simpa using spaced

theorem Bindings.Clean.declare? {b' : Bindings} (clean : b.Clean) (chars : Xml.Clean uri)
    (bound : b.declare? q uri = some b') : b'.Clean := by
  obtain ⟨rfl, unbinds, other, closed⟩ := of_declare? bound
  refine List.forall_mem_cons.mpr ⟨⟨chars, fun filled => ⟨?_, ?_, ?_⟩, fun spaced => unbinds ?_⟩, clean⟩
  · simpa [String.ofList_eq_empty_iff] using filled
  · rintro same
    exact other (by rw [← same, String.toList_ofList])
  · rwa [String.toList_ofList]
  · simpa using spaced

theorem Bindings.Clean.declareAll? {all : List (QName × List Char)} (clean : b.Clean)
    (values : ∀ a ∈ all, Xml.Clean a.2) (bound : b.declareAll? all = some inner) : inner.Clean := by
  induction all generalizing b with
  | nil =>
      obtain rfl := Option.some.inj bound
      exact clean
  | cons a all ih =>
      obtain ⟨here, later⟩ := List.forall_mem_cons.mp values
      obtain ⟨q, value⟩ := a
      rw [Bindings.declareAll?, List.foldlM_cons] at bound
      obtain ⟨next, first, bound⟩ := Option.bind_eq_some_iff.mp bound
      refine ih ?_ later bound
      simp only at first
      split at first
      case isTrue => exact clean.declare? here first
      case isFalse => exact Option.some.inj first ▸ clean

/-! ## Names -/

theorem QName.IsReadable.expansion (readable : q.IsReadable) (chars : Clean uri)
    (declarable : uri ≠ [] → Spaces.Declarable (.ofList uri)) :
    ∃ uri?, Expansion (q.expand uri) uri? (.ofList q.label) := by
  have filled : String.ofList q.label ≠ "" := by simpa [String.ofList_eq_empty_iff] using readable.label_ne
  have label : ∀ c ∈ (String.ofList q.label).toList, isNameChar c = true := by
    rw [String.toList_ofList]
    exact readable.label_chars
  rw [QName.expand]
  split
  case isTrue => exact ⟨none, rfl, by simp, by simp, filled, label⟩
  case isFalse other =>
    refine ⟨some (.ofList uri), rfl, ?_, ?_, filled, label⟩
    · rintro _ ⟨⟩
      exact declarable other
    · rintro _ ⟨⟩
      rw [String.toList_ofList]
      exact clean_iff.mp chars

theorem QName.IsReadable.expansion_bare (readable : q.IsReadable) :
    Expansion (.ofList q.label) none (.ofList q.label) where
  name_eq := rfl
  declarable := by simp
  uri_chars := by simp
  label_ne := by simpa [String.ofList_eq_empty_iff] using readable.label_ne
  label_chars := by
    rw [String.toList_ofList]
    exact readable.label_chars

theorem Bindings.Clean.attributeName? {name : String} (clean : b.Clean) (readable : q.IsReadable)
    (quiet : q.declaresNamespace = false) (named : b.attributeName? q = some name) :
    (∃ uri?, Expansion name uri? (.ofList q.label)) ∧ name ≠ "xmlns" := by
  rw [Bindings.attributeName?] at named
  split at named
  case h_1 bare =>
    obtain rfl := Option.some.inj named
    refine ⟨⟨none, readable.expansion_bare⟩, fun same => ?_⟩
    have same := congrArg String.toList same
    rw [String.toList_ofList] at same
    simp [QName.declaresNamespace, bare, same] at quiet
  case h_2 short spaced =>
    obtain ⟨uri, found, rfl⟩ := Option.map_eq_some_iff.mp named
    obtain ⟨chars, declarable, bound⟩ := clean _ (mem_of_lookup found)
    refine ⟨readable.expansion chars declarable, fun same => ?_⟩
    have same := congrArg String.toList same
    rw [QName.expand, if_neg (bound (by simp [spaced])), toList_expanded] at same
    exact absurd (List.cons.inj same).1 (by decide)

theorem Bindings.Clean.elementName? {name : String} (clean : b.Clean) (proper : q.IsProper)
    (named : b.elementName? q = some name) : ∃ uri?, Expansion name uri? (.ofList q.label) := by
  rw [Bindings.elementName?] at named
  split at named
  case h_1 =>
    obtain rfl := Option.some.inj named
    exact ⟨none, proper.readable.expansion_bare⟩
  case h_2 uri found =>
    obtain rfl := Option.some.inj named
    obtain ⟨chars, declarable, -⟩ := clean _ (mem_of_lookup found)
    exact proper.readable.expansion chars declarable
  case h_3 => cases named

/-! ## Elements -/

theorem legible_attributesOf? {all : List (QName × List Char)} (declared : d.Clean) (clean : e.Clean)
    (given : d.attributesOf? e = some all) : ∀ a ∈ all, a.1.IsReadable ∧ Clean a.2 := by
  simp only [Declarations.attributesOf?, Option.bind_eq_bind, Option.pure_def] at given
  split at given
  case isTrue => simp at given
  case isFalse =>
    obtain ⟨own, values, made⟩ := Option.bind_eq_some_iff.mp given
    obtain rfl := Option.some.inj made
    refine List.forall_mem_append.mpr ⟨fun a mem => ?_, fun a mem => ?_⟩
    · obtain ⟨⟨q, pieces⟩, there, made⟩ := exists_of_mem_mapM values mem
      obtain ⟨value, expanded, made⟩ := Option.bind_eq_some_iff.mp made
      obtain rfl := Option.some.inj made
      obtain ⟨proper, tidy⟩ := clean.attributes _ there
      have chars := clean_of_expandValue tidy expanded
      refine ⟨proper.readable, ?_⟩
      simp only
      split
      case isTrue => exact clean_collapseSpaces chars
      case isFalse => exact chars
    · obtain ⟨decl, listed, made⟩ := List.mem_filterMap.mp mem
      obtain ⟨v, value, rfl⟩ := Option.map_eq_some_iff.mp made
      have tidy := declared decl (List.mem_filter.mp (List.mem_filter.mp listed).1).1
      exact ⟨tidy.name, tidy.value v value⟩

theorem legible_of_resolve? {made : Element} (declared : d.Clean) (bound : b.Clean) (clean : e.Clean)
    (read : e.resolve? d b = some (made, inner)) : made.Legible ∧ inner.Clean := by
  obtain ⟨all, given, resolved⟩ := Draft.resolve?_eq_some_iff.mp read
  have tidy := legible_attributesOf? declared clean given
  have inside := bound.declareAll? (fun a mem => (tidy a mem).2) resolved.bound
  refine ⟨⟨?_, fun a mem => ?_, resolved.distinct, ?_, ?_⟩, inside⟩
  · obtain ⟨uri, expansion⟩ := inside.elementName? clean.name resolved.name
    exact ⟨uri, _, expansion, by rw [String.toList_ofList]; exact clean.name.1⟩
  · obtain ⟨a', there, named, value⟩ := exists_of_mem_right resolved.attributes mem
    obtain ⟨listed, quiet⟩ := List.mem_filter.mp there
    obtain ⟨readable, chars⟩ := tidy a' listed
    obtain ⟨⟨uri, expansion⟩, other⟩ := inside.attributeName? readable (by simpa using quiet) named
    exact ⟨⟨uri, _, expansion⟩, other, by rw [value, String.toList_ofList]; exact chars⟩
  · rw [resolved.text, String.toList_ofList]
    exact clean.text
  · rw [resolved.tail, String.toList_ofList]
    exact clean.tail

theorem legible_of_resolveAll? {f : Forest Draft} {g : Forest Element} (declared : d.Clean) (bound : b.Clean)
    (clean : ∀ e ∈ f.toList, e.Clean) (read : resolveAll? d b f = some g) : ∀ e ∈ g.toList, e.Legible := by
  induction f generalizing b g with
  | nil =>
      obtain rfl := Option.some.inj read
      simp [Forest.toList]
  | node e children siblings ihc ihs =>
      obtain ⟨made, inner, below, after, own, inside, later, rfl⟩ := resolveAll?_node_iff.mp read
      obtain ⟨here, clean⟩ := List.forall_mem_cons.mp clean
      obtain ⟨first, second⟩ := List.forall_mem_append.mp clean
      obtain ⟨legible, bound'⟩ := legible_of_resolve? declared bound here own
      exact List.forall_mem_cons.mpr ⟨legible,
        List.forall_mem_append.mpr ⟨ihc bound' first inside, ihs bound second later⟩⟩

/-! ## Documents -/

theorem clean_of_prolog? {s rest : List Char} (read : prolog? s = some (d, rest)) : d.Clean := by
  have none : d.attributes = [] := by
    rw [prolog?] at read
    split at read
    case h_1 =>
      split at read
      case isTrue =>
        obtain ⟨rfl, -⟩ := Prod.mk.inj (Option.some.inj read)
        rfl
      case isFalse =>
        obtain ⟨_, -, same⟩ := Option.map_eq_some_iff.mp read
        obtain ⟨rfl, -⟩ := Prod.mk.inj same
        rfl
    case h_2 =>
      obtain ⟨rfl, -⟩ := Prod.mk.inj (Option.some.inj read)
      rfl
  rw [Declarations.Clean, none]
  simp

/-- The root of a document has no tail, and all its elements are legible. -/
theorem legible_of_root? {s : List Char} {f : Forest Element} (read : root? s = some f) :
    (∃ e children, f = .node e children .nil ∧ e.tail = "") ∧ ∀ e ∈ f.toList, e.Legible := by
  simp only [root?, Option.bind_eq_bind, Option.bind_eq_some_iff] at read
  obtain ⟨⟨d₁, s₁⟩, prolog, s₂, -, ⟨d₂, s₃⟩, type, s₄, -, ⟨ts, s₅⟩, element, d₃, taken, ts', expanded, content,
    whole, s₆, -, read⟩ := read
  have declared : d₃.Clean := by
    rw [Declarations.Clean, attributes_take? taken]
    exact clean_of_doctype? (clean_of_prolog? prolog) type
  obtain ⟨tokens, start⟩ := Option.filter_eq_some_iff.mp element
  have inside : Content.read ts' = some (content, []) := by
    rw [Content.ofTokens?] at whole
    split at whole
    case h_1 found => exact Option.some.inj whole ▸ found
    case h_2 => cases whole
  have clean := (clean_of_read (clean_of_expandContent (clean_of_elementTokens? tokens) expanded) inside).1
  obtain ⟨before, t, rfl, last⟩ := exists_ends_of_elementTokens? tokens start
  obtain ⟨before', rfl⟩ := ends_of_expandContent last expanded
  have tailless := (tailless_of_read last inside).1 rfl
  split at read
  case isTrue => simp at read
  case isFalse =>
    split at read
    case h_1 e children single =>
      rw [single] at read tailless
      have legible := legible_of_resolveAll? declared .initial (single ▸ clean.elements) read
      obtain ⟨made, inner, below, after, own, -, none, rfl⟩ := resolveAll?_node_iff.mp read
      obtain rfl := Option.some.inj none
      refine ⟨⟨made, below, rfl, ?_⟩, legible⟩
      obtain ⟨all, -, resolved⟩ := Draft.resolve?_eq_some_iff.mp own
      have blank : e.tail = [] := Option.some.inj tailless
      rw [resolved.tail, blank]
    case h_2 => cases read

end SvgForm.Xml
