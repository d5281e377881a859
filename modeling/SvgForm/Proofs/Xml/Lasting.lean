import Mathlib.Tactic.MkIffOfInductiveProp
import SvgForm.Proofs.Xml.Legible
import SvgForm.Proofs.Xml.Written
/-! # What markup gives back

An element of a document comes back from its own markup unless a carriage return stands in its text, or one of its
attributes is in the namespace that is written without a short form or has a label that no name can start with.
-/

namespace SvgForm.Xml

/-- Whether the label can start a name and is in no namespace that is written without a short form. -/
def lasts (name : String) : Bool :=
  match splitName name with
  | .ok (uri, label) => uri ≠ some svgNamespace && label.toList.head?.any isNameStart
  | .error _ => false

/-- An element that its markup gives back as it is. -/
@[mk_iff] structure Element.Lasting (e : Element) : Prop where
  text : '\r' ∉ e.text.toList
  tail : '\r' ∉ e.tail.toList
  names : ∀ a ∈ e.attributes, lasts a.1 = true

instance (e : Element) : Decidable e.Lasting :=
  decidable_of_iff' _ e.lasting_iff

variable {met : Spaces} {names : List String} {name label : String} {uri? : Option String} {q q' : QName}
  {w : List Char} {e : Element} {l : List Element}

/-! ## Names in a row of their characters -/

theorem isLabel_iff {label : List Char} (chars : ∀ c ∈ label, isNameChar c = true) :
    isLabel label = true ↔ label.head?.any isNameStart = true := by
  cases label with
  | nil => simp [isLabel]
  | cons c s =>
      have more : s.all isNameChar = true := List.all_eq_true.mpr fun x mem => chars x (List.mem_cons_of_mem c mem)
      simp [isLabel, more]

theorem isSpace_of_isNameChar {c : Char} (char : isNameChar c = true ∨ c = ':') : isSpace c = false := by
  by_contra space
  simp only [isSpace, Bool.or_eq_true, decide_eq_true_eq, Bool.not_eq_false] at space
  rcases space with ((rfl | rfl) | rfl) | rfl <;> exact absurd char (by decide)

theorem spelling_of_readName? (chars : ∀ c ∈ w, isNameChar c = true ∨ c = ':') (read : readName? w = some q) :
    q.spelling = w := by
  obtain ⟨-, before, after, rfl, blank⟩ := of_readName? read
  have none : before ++ after = [] := by
    refine List.eq_nil_iff_forall_not_mem.mpr fun c mem => ?_
    have listed : c ∈ before ++ (q.spelling ++ after) := by
      rcases List.mem_append.mp mem with first | last
      · exact List.mem_append_left _ first
      · exact List.mem_append_right _ (List.mem_append_right _ last)
    have space := blank c mem
    rw [isSpace_of_isNameChar (chars c listed)] at space
    cases space
  obtain ⟨rfl, rfl⟩ := List.append_eq_nil_iff.mp none
  simp

/-- A name whose parts hold no colon. -/
def QName.Parted (q : QName) : Prop :=
  ':' ∉ q.label ∧ ∀ space, q.space = some space → ':' ∉ space

theorem QName.Parted.eq (parted : q.Parted) (parted' : q'.Parted) (same : q.spelling = q'.spelling) : q = q' := by
  have cut {q : QName} (parted : q.Parted) :
      (Text.cutAtChar? ':' q.spelling).elim ⟨none, q.spelling⟩ (fun parts => ⟨some parts.1, parts.2⟩) = q := by
    obtain ⟨space, label⟩ := q
    cases space with
    | none => simp [QName.spelling, Text.cutAtChar?_eq_none parted.1]
    | some space => simp [QName.spelling, Text.cutAtChar?_append (parted.2 space rfl)]
  rw [← cut parted, ← cut parted', same]

theorem colon_not_mem {s : List Char} (chars : ∀ c ∈ s, isNameChar c = true) : ':' ∉ s :=
  fun mem => absurd (chars _ mem) (by decide)

theorem QName.IsReadable.parted (readable : q.IsReadable) : q.Parted :=
  ⟨colon_not_mem readable.label_chars, fun space same =>
    colon_not_mem fun _ => isNameChar_of_mem_label (readable.space space same)⟩

theorem Spaces.Meets.readable_shown (meets : Spaces.Meets names met) (mem : name ∈ names)
    (expansion : Expansion name uri? label) : (met.shown name).IsReadable := by
  rw [Spaces.shown_of_splitName expansion.splitName_eq]
  exact meets.readable_written mem expansion

theorem Spaces.Meets.proper_shown_iff (meets : Spaces.Meets names met) (mem : name ∈ names)
    (expansion : Expansion name uri? label) : (met.shown name).IsProper ↔ isLabel label.toList = true := by
  rw [QName.IsProper, and_iff_left (meets.readable_shown mem expansion).space,
    Spaces.shown_of_splitName expansion.splitName_eq, Spaces.label_written]

/-- A name with a namespace and a label is read back as it was written, if its label can start a name. -/
theorem Spaces.Meets.readName?_shown (meets : Spaces.Meets names met) (mem : name ∈ names)
    (expansion : Expansion name uri? label) : readName? (met.shown name).spelling = some q ↔
      q = met.shown name ∧ isLabel label.toList = true := by
  have readable := meets.readable_shown mem expansion
  rw [← meets.proper_shown_iff mem expansion]
  constructor
  · intro read
    have proper := (of_readName? read).1
    have same := spelling_of_readName? (fun c => readable.mem_spelling) read
    obtain rfl := proper.readable.parted.eq readable.parted same
    exact ⟨rfl, proper⟩
  · rintro ⟨rfl, proper⟩
    exact readName?_spelling proper

/-! ## Elements that last -/

theorem lasts_iff (split : splitName name = .ok (uri?, label)) :
    lasts name = true ↔ uri? ≠ some svgNamespace ∧ label.toList.head?.any isNameStart = true := by
  rw [lasts, split]
  simp

theorem Expansion.of_lasts (expansion : Expansion name uri? label) (last : lasts name = true) :
    uri? ≠ some svgNamespace ∧ isLabel label.toList = true := by
  obtain ⟨other, start⟩ := (lasts_iff expansion.splitName_eq).mp last
  exact ⟨other, (isLabel_iff expansion.label_chars).mpr start⟩

/-- Only a bare label can be taken for the declaration of a namespace. -/
theorem space_of_declares (meets : Spaces.Meets names met) (mem : name ∈ names) (expansion : Expansion name uri? label)
    (declares : (met.shown name).declaresNamespace = true) :
    (met.shown name).space = none ∧ label = "xmlns" := by
  rw [Spaces.shown_of_splitName expansion.splitName_eq] at declares ⊢
  rw [QName.declaresNamespace] at declares
  split at declares
  case h_1 space spaced =>
    have other := (meets.isLabel_space_written mem expansion.splitName_eq spaced).2
    exact absurd (of_decide_eq_true declares) other
  case h_2 bare =>
    rw [Spaces.label_written] at declares
    exact ⟨bare, String.toList_inj.mp (of_decide_eq_true declares)⟩

theorem quiet_written (meets : Spaces.Meets names met) (mem : name ∈ names) (expansion : Expansion name uri? label)
    (plain : name ≠ "xmlns") (other : uri? ≠ some svgNamespace) :
    (met.shown name).declaresNamespace = false := by
  by_contra declares
  obtain ⟨bare, rfl⟩ := space_of_declares meets mem expansion (Bool.not_eq_false _ ▸ declares)
  cases uri? with
  | none => exact plain expansion.name_eq
  | some uri =>
      rw [Spaces.shown_of_splitName expansion.splitName_eq] at bare
      have svg := (meets.sound.svg_iff (meets.lookup_written mem expansion.splitName_eq)).mp bare
      exact other (by rw [String.toList_inj.mp svg])

/-- Attributes whose names last are written so that they spoil no tag and declare nothing. -/
theorem harmless_of_lasts (meets : Spaces.Meets names met) (listed : ∀ a ∈ e.attributes, a.1 ∈ names)
    (legible : e.Legible) (last : ∀ a ∈ e.attributes, lasts a.1 = true) :
    ∀ a ∈ e.attributes, Harmless (met.shown a.1).spelling := by
  intro a mem
  obtain ⟨⟨uri, label, expansion⟩, plain, -⟩ := legible.attributes a mem
  have marks := (meets.readable_shown (listed a mem) expansion).marks
  refine ⟨marks.1, marks.2, fun q read => ?_⟩
  obtain ⟨rfl, -⟩ := (meets.readName?_shown (listed a mem) expansion).mp read
  exact quiet_written meets (listed a mem) expansion plain (expansion.of_lasts (last a mem)).1

/-- An element whose names last is read with its attributes as they were. -/
theorem exists_readAs (meets : Spaces.Meets names met) (listed : ∀ n ∈ e.name :: e.attributes.map Prod.fst, n ∈ names)
    (legible : e.Legible) (last : ∀ a ∈ e.attributes, lasts a.1 = true) :
    ∃ back, (met.spelled e).ReadAs met.bindings ⟨back, e.attributes, normalText e.text, normalText e.tail⟩ ∧
      localName back = localName e.name := by
  obtain ⟨named, attributes⟩ := List.forall_mem_cons.mp listed
  have attributes : ∀ a ∈ e.attributes, a.1 ∈ names := fun a mem => attributes a.1 (List.mem_map_of_mem mem)
  obtain ⟨uri, label, expansion, -⟩ := legible.name
  obtain ⟨back, name, same⟩ := meets.elementName?_written named expansion
  have reads : ∀ a ∈ e.attributes, ∃ q, readName? (met.shown a.1).spelling = some q ∧
      met.bindings.attributeName? q = some a.1 := by
    intro a mem
    obtain ⟨⟨uri, label, expansion⟩, -, -⟩ := legible.attributes a mem
    obtain ⟨other, start⟩ := expansion.of_lasts (last a mem)
    refine ⟨_, (meets.readName?_shown (attributes a mem) expansion).mpr ⟨rfl, start⟩, ?_⟩
    rw [Spaces.shown_of_splitName expansion.splitName_eq, meets.attributeName?_written (attributes a mem) expansion,
      if_neg other]
  refine ⟨back, ⟨?_, ?_, ?_, legible.distinct, ?_, ⟨clean_iff.mp legible.text, rfl⟩, ⟨clean_iff.mp legible.tail, rfl⟩⟩,
    same⟩
  · rw [Spaces.spelled, Spaces.shown_of_splitName expansion.splitName_eq, name]
  · refine List.forall₂_map_left_iff.mpr (List.forall₂_same.mpr fun a mem => ⟨?_, rfl⟩)
    obtain ⟨q, read, bound⟩ := reads a mem
    rw [read, Option.bind_some, bound]
  · have names : ((met.spelled e).attributes.map fun a => readName? a.1).map
        (fun q? => q?.bind met.bindings.attributeName?) = (e.attributes.map Prod.fst).map some := by
      simp only [Spaces.spelled, List.map_map]
      refine List.map_congr_left fun a mem => ?_
      obtain ⟨q, read, bound⟩ := reads a mem
      simp [read, bound]
    refine List.Nodup.of_map _ (names ▸ legible.distinct.map fun _ _ => Option.some.inj)
  · exact List.forall_mem_map.mpr fun a mem => clean_iff.mp (legible.attributes a mem).2.2

/-- What an element and its reading have in common. -/
structure Element.SameReading (e e' : Element) : Prop where
  name : localName e'.name = localName e.name
  attributes : e'.attributes = e.attributes
  text : e'.text = e.text
  tail : e'.tail = e.tail

theorem normalText_eq {t : String} (absent : '\r' ∉ t.toList) : normalText t = t := by
  have same := normalizeNewlines_of_not_mem absent []
  rw [List.append_nil, normalizeNewlines, List.append_nil] at same
  rw [normalText, Text.onChars, same, String.ofList_toList]

theorem exists_sameReading (meets : Spaces.Meets names met)
    (listed : ∀ n ∈ e.name :: e.attributes.map Prod.fst, n ∈ names) (legible : e.Legible) (lasting : e.Lasting) :
    ∃ e', (met.spelled e).ReadAs met.bindings e' ∧ e.SameReading e' := by
  obtain ⟨back, readAs, same⟩ := exists_readAs meets listed legible lasting.names
  exact ⟨_, readAs, same, rfl, normalText_eq lasting.text, normalText_eq lasting.tail⟩

/-! ## Elements that are read -/

variable {d : Declarations} {b inner : Bindings} {s : Spelled} {made : Element}

/-- No short form is bound to the namespace that is written without one. -/
def Bindings.Plain (b : Bindings) : Prop :=
  ∀ p ∈ b, p.1 ≠ none → p.2 ≠ svgNamespace.toList

theorem Bindings.Plain.initial : Bindings.initial.Plain := by
  rintro _ (_ | ⟨_, ⟨⟩⟩)
  exact fun _ => by decide

/-- Attributes declare a short form only for other namespaces. -/
def Spelled.Modest (s : Spelled) : Prop :=
  ∀ a ∈ s.attributes, ∀ q, readName? a.1 = some q → q.space ≠ none → q.declaresNamespace = true → a.2 ≠ svgNamespace

theorem Bindings.Plain.declareAll? {all : List (QName × List Char)} (plain : b.Plain)
    (modest : ∀ a ∈ all, a.1.space ≠ none → a.1.declaresNamespace = true → a.2 ≠ svgNamespace.toList)
    (bound : b.declareAll? all = some inner) : inner.Plain := by
  induction all generalizing b with
  | nil =>
      obtain rfl := Option.some.inj bound
      exact plain
  | cons a all ih =>
      obtain ⟨here, later⟩ := List.forall_mem_cons.mp modest
      obtain ⟨q, value⟩ := a
      rw [Bindings.declareAll?, List.foldlM_cons] at bound
      obtain ⟨next, first, bound⟩ := Option.bind_eq_some_iff.mp bound
      refine ih ?_ later bound
      simp only at first here
      split at first
      case isTrue declares =>
        obtain ⟨rfl, -⟩ := of_declare? first
        refine List.forall_mem_cons.mpr ⟨fun spaced => here ?_ declares, plain⟩
        simpa using spaced
      case isFalse => exact Option.some.inj first ▸ plain

theorem Bindings.Plain.attributeName? (plain : b.Plain) (proper : q.IsProper) (named : b.attributeName? q = some name) :
    lasts name = true := by
  have start : (String.ofList q.label).toList.head?.any isNameStart = true := by
    rw [String.toList_ofList]
    exact (isLabel_iff proper.readable.label_chars).mp proper.1
  rw [Bindings.attributeName?] at named
  split at named
  case h_1 =>
    obtain rfl := Option.some.inj named
    exact (lasts_iff proper.readable.expansion_bare.splitName_eq).mpr ⟨by simp, start⟩
  case h_2 space spaced =>
    obtain ⟨uri, found, rfl⟩ := Option.map_eq_some_iff.mp named
    have other := plain _ (mem_of_lookup found) (by simp [spaced])
    rw [QName.expand]
    split
    case isTrue => exact (lasts_iff proper.readable.expansion_bare.splitName_eq).mpr ⟨by simp, start⟩
    case isFalse =>
      have closing : '\x7d' ∉ (String.ofList q.label).toList := by
        rw [String.toList_ofList]
        exact fun mem => absurd (proper.readable.label_chars _ mem) (by decide)
      refine (lasts_iff (splitName_expanded _ closing)).mpr ⟨fun same => other ?_, start⟩
      rw [← Option.some.inj same, String.toList_ofList]

theorem not_mem_normalizeNewlines (s : List Char) : '\r' ∉ normalizeNewlines s := by
  fun_induction normalizeNewlines s with
  | case1 => simp
  | case2 s ih => simpa using ih
  | case3 s _ ih => simpa using ih
  | case4 c s _ other ih => simpa [eq_comm] using ⟨other, ih⟩

theorem lasting_of_resolve? (none : d.attributes = []) (plain : b.Plain) (modest : s.Modest) {e : Draft}
    (draft : s.normal.draft? = some e) (read : e.resolve? d b = some (made, inner)) : made.Lasting ∧ inner.Plain := by
  obtain ⟨own, reads, -, -, -, rfl⟩ := Spelled.draft?_normal_eq_some_iff.mp draft
  obtain ⟨all, given, resolved⟩ := Draft.resolve?_eq_some_iff.mp read
  rw [attributesOf?_chars none rfl] at given
  split at given
  case isFalse => cases given
  case isTrue =>
    obtain rfl := Option.some.inj given
    have inside : inner.Plain := by
      refine plain.declareAll? (List.forall_mem_map.mpr fun a mem spaced declares => ?_) resolved.bound
      obtain ⟨x, there, name, value⟩ := exists_of_mem_right reads mem
      rw [Ne, String.toList_inj, value]
      exact modest x there _ name spaced declares
    refine ⟨⟨?_, ?_, fun a mem => ?_⟩, inside⟩
    · rw [resolved.text, String.toList_ofList]
      exact not_mem_normalizeNewlines _
    · rw [resolved.tail, String.toList_ofList]
      exact not_mem_normalizeNewlines _
    · obtain ⟨⟨q, v⟩, there, named, -⟩ := exists_of_mem_right resolved.attributes mem
      obtain ⟨a', listed, same⟩ := List.mem_map.mp (List.mem_filter.mp there).1
      obtain ⟨rfl, -⟩ := Prod.mk.inj same
      obtain ⟨x, -, name, -⟩ := exists_of_mem_right reads listed
      exact inside.attributeName? (of_readName? name).1 named

theorem lasting_of_reread? {f : Forest Spelled} {g : Forest Element} (none : d.attributes = []) (plain : b.Plain)
    (modest : ∀ s ∈ f.toList, s.Modest) (read : reread? d b f = some g) : ∀ e ∈ g.toList, e.Lasting := by
  induction f generalizing b g with
  | nil =>
      obtain rfl := reread?_nil_iff.mp read
      simp [Forest.toList]
  | node s children siblings ihc ihs =>
      obtain ⟨made, inner, below, after, ⟨e, draft, own⟩, inside, later, rfl⟩ := reread?_node_iff.mp read
      obtain ⟨here, modest⟩ := List.forall_mem_cons.mp modest
      obtain ⟨first, second⟩ := List.forall_mem_append.mp modest
      obtain ⟨lasting, plain'⟩ := lasting_of_resolve? none plain here draft own
      exact List.forall_mem_cons.mpr ⟨lasting,
        List.forall_mem_append.mpr ⟨ihc plain' first inside, ihs plain second later⟩⟩

/-! ## Trees of legible elements -/

theorem mem_namesOf (mem : e ∈ l) : ∀ n ∈ e.name :: e.attributes.map Prod.fst, n ∈ namesOf l :=
  fun _ named => List.mem_flatMap.mpr ⟨e, mem, named⟩

theorem mem_namesOf_attribute (mem : e ∈ l) : ∀ a ∈ e.attributes, a.1 ∈ namesOf l :=
  fun _ listed => mem_namesOf mem _ (List.mem_cons_of_mem _ (List.mem_map_of_mem listed))

theorem expansion_of_legible (legible : ∀ e ∈ l, e.Legible) (mem : name ∈ namesOf l) :
    ∃ uri label, Expansion name uri label := by
  obtain ⟨e, listed, named⟩ := List.mem_flatMap.mp mem
  rcases List.mem_cons.mp named with rfl | inside
  · obtain ⟨uri, label, expansion, -⟩ := (legible e listed).name
    exact ⟨uri, label, expansion⟩
  · obtain ⟨a, there, rfl⟩ := List.mem_map.mp inside
    exact ((legible e listed).attributes a there).1

theorem exists_meets (parted : ∀ n ∈ names, ∃ parts, splitName n = .ok parts) (met : Spaces) :
    ∃ met', names.foldlM Spaces.meet met = .ok met' := by
  induction names generalizing met with
  | nil => exact ⟨met, rfl⟩
  | cons n names ih =>
      obtain ⟨⟨⟨uri?, label⟩, split⟩, later⟩ := List.forall_mem_cons.mp parted
      have first : ∃ next, met.meet n = .ok next := by
        rw [Spaces.meet, split]
        cases uri? <;> exact ⟨_, rfl⟩
      obtain ⟨next, first⟩ := first
      obtain ⟨met', rest⟩ := ih later next
      exact ⟨met', by rw [List.foldlM_cons, first]; exact rest⟩

/-- The namespaces of legible elements can all be met. -/
theorem exists_meets_of_legible (legible : ∀ e ∈ l, e.Legible) :
    ∃ met, (namesOf l).foldlM Spaces.meet [] = .ok met := by
  refine exists_meets (fun n mem => ?_) []
  obtain ⟨uri, label, expansion⟩ := expansion_of_legible legible mem
  exact ⟨_, expansion.splitName_eq⟩

section

variable (legible : ∀ e ∈ l, e.Legible) (meets : Spaces.Meets (namesOf l) met)

include legible meets

theorem declarable_of_legible : ∀ p ∈ met, Spaces.Declarable p.1 ∧ p.1.toList.all isMarkupChar = true := by
  intro p mem
  obtain ⟨n, listed, label, split⟩ := meets.used p.1 (List.mem_map_of_mem mem)
  obtain ⟨uri, label', expansion⟩ := expansion_of_legible legible listed
  obtain ⟨rfl, -⟩ := Prod.mk.inj (Except.ok.inj (expansion.splitName_eq.symm.trans split))
  exact ⟨expansion.declarable _ rfl, expansion.uri_chars _ rfl⟩

theorem proper_of_legible : ∀ e ∈ l, (met.shown e.name).IsProper := by
  intro e mem
  obtain ⟨uri, label, expansion, start⟩ := (legible e mem).name
  exact (meets.proper_shown_iff (mem_namesOf mem _ List.mem_cons_self) expansion).mpr start

theorem marks_of_legible :
    ∀ e ∈ l, ∀ a ∈ e.attributes, '=' ∉ (met.shown a.1).spelling ∧ '>' ∉ (met.shown a.1).spelling := by
  intro e mem a there
  obtain ⟨⟨uri, label, expansion⟩, -, -⟩ := (legible e mem).attributes a there
  exact (meets.readable_shown (mem_namesOf_attribute mem a there) expansion).marks

theorem modest_of_legible : ∀ e ∈ l, (met.spelled e).Modest := by
  intro e mem
  refine List.forall_mem_map.mpr fun a there q read spaced declares => ?_
  obtain ⟨⟨uri, label, expansion⟩, -, -⟩ := (legible e mem).attributes a there
  have listed := mem_namesOf_attribute mem a there
  obtain ⟨rfl, -⟩ := (meets.readName?_shown listed expansion).mp read
  exact absurd (space_of_declares meets listed expansion declares).1 spaced

end

/-- What a tree of legible elements is written as is read element by element, where the names of the attributes
last. -/
theorem root?_markup_of_lasts {children g : Forest Element}
    (meets : Spaces.Meets (namesOf (Forest.node e children .nil).toList) met)
    (legible : ∀ x ∈ (Forest.node e children .nil).toList, x.Legible) (last : e.tail = "")
    (names : ∀ x ∈ (Forest.node e children .nil).toList, ∀ a ∈ x.attributes, lasts a.1 = true) :
    root? (markup (.node ((met.spelled e).declaring met.declared) (children.map met.spelled) .nil)) = some g ↔
      (Forest.node e children .nil).Alike (fun x x' => (met.spelled x).ReadAs met.bindings x') g := by
  have harmless : ∀ x ∈ (Forest.node e children .nil).toList, ∀ a ∈ x.attributes,
      Harmless (met.shown a.1).spelling := fun x mem =>
    harmless_of_lasts meets (mem_namesOf_attribute mem) (legible x mem) (names x mem)
  rw [root?_markup_iff meets.sound (proper_of_legible legible meets) harmless last]
  exact and_iff_right (declarable_of_legible legible meets)

/-- Only the namespace that needs no short form is declared without one. -/
theorem Spaces.Sound.modest_declaring (sound : met.Sound) (modest : s.Modest) : (s.declaring met.declared).Modest := by
  refine List.forall_mem_append.mpr ⟨List.forall_mem_map.mpr fun a mem q read spaced _ => ?_, modest⟩
  rw [readName?_spelling (sound.proper_declared a mem).1, Option.some.injEq] at read
  subst read
  obtain ⟨p, there, rfl⟩ := List.mem_map.mp mem
  rintro svg
  refine spaced ?_
  rw [Spaces.declaring, if_pos ((sound.short_eq_empty_iff (Spaces.mem_sorted.mp there)).mpr svg)]

end SvgForm.Xml
