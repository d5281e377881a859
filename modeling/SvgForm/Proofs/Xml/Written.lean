import SvgForm.Proofs.Xml.Resolve
/-! # Trees as they are written

Writing a tree spells out its names and declares its namespaces at the root. Reading that gives the tree back, as
far as its names are read as they were meant.
-/

namespace SvgForm.Xml

variable {met : Spaces} {name : String} {e : Element} {f : Forest Element}

namespace Spaces

/-- The name as it is written; nothing stands for one that opens a namespace and does not close it. -/
def shown (met : Spaces) (name : String) : QName :=
  match splitName name with
  | .ok parts => met.written parts
  | .error _ => ⟨none, []⟩

/-- The element with its names as they are written. -/
def spelled (met : Spaces) (e : Element) : Spelled where
  name := met.shown e.name
  attributes := e.attributes.map fun a => ((met.shown a.1).spelling, a.2)
  text := e.text
  tail := e.tail

theorem shown_of_splitName {parts : Option String × String} (split : splitName name = .ok parts) :
    met.shown name = met.written parts := by
  rw [shown, split]

theorem write_shown (parted : ∃ parts, splitName name = .ok parts) :
    met.write name = .ok (met.shown name).spelling := by
  obtain ⟨parts, split⟩ := parted
  rw [write_eq, shown_of_splitName split, split]
  rfl

end Spaces

/-- The names of an element can be parted. -/
def Element.Parted (e : Element) : Prop :=
  ∀ n ∈ e.name :: e.attributes.map Prod.fst, ∃ parts, splitName n = .ok parts

theorem mapM_eq_ok_map {ε α β : Type} {f : α → Except ε β} {g : α → β} {l : List α}
    (each : ∀ a ∈ l, f a = .ok (g a)) : l.mapM f = .ok (l.map g) := by
  induction l with
  | nil => rfl
  | cons a l ih =>
      obtain ⟨here, later⟩ := List.forall_mem_cons.mp each
      rw [List.mapM_cons, here, ih later]
      rfl

theorem mapM_writeAttribute (met : Spaces) {attributes : List (String × String)}
    (parted : ∀ a ∈ attributes, ∃ parts, splitName a.1 = .ok parts) :
    attributes.mapM (fun a => (met.write a.1).bind fun n => Except.ok (writeAttribute n a.2)) =
      .ok ((attributes.map fun a => ((met.shown a.1).spelling, a.2)).map fun a => writeAttribute a.1 a.2) := by
  rw [List.map_map]
  refine mapM_eq_ok_map fun a mem => ?_
  rw [Spaces.write_shown (parted a mem)]
  rfl

theorem writeForest_node {children siblings : Forest Element} (parted : e.Parted)
    (inside : writeForest met [] children = .ok (markup (children.map met.spelled)))
    (later : writeForest met [] siblings = .ok (markup (siblings.map met.spelled))) (declared : List (QName × String)) :
    writeForest met (declared.flatMap fun a => writeAttribute a.1.spelling a.2) (.node e children siblings) =
      .ok (markup (.node ((met.spelled e).declaring declared) (children.map met.spelled) (siblings.map met.spelled))) := by
  obtain ⟨named, attributes⟩ := List.forall_mem_cons.mp parted
  have attributes := mapM_writeAttribute met fun a mem => attributes a.1 (List.mem_map_of_mem mem)
  have head : ((met.spelled e).declaring declared).opening = '<' :: (met.shown e.name).spelling ++
      declared.flatMap (fun a => writeAttribute a.1.spelling a.2) ++
        ((e.attributes.map fun a => ((met.shown a.1).spelling, a.2)).map fun a => writeAttribute a.1 a.2).flatten := by
    simp [Spelled.opening, Spelled.declaring, Spaces.spelled, List.flatMap_def, Function.comp_def]
  simp only [writeForest, bind, Except.bind, pure, Except.pure] at attributes ⊢
  rw [Spaces.write_shown named, attributes, inside, later]
  simp only [markup, Spelled.around, ← head, List.append_assoc]
  have name : ((met.spelled e).declaring declared).name = met.shown e.name := rfl
  have text : ((met.spelled e).declaring declared).text = e.text := rfl
  have tail : ((met.spelled e).declaring declared).tail = e.tail := rfl
  rw [name, text, tail]
  split
  case h_1 blank =>
    rw [blank, if_pos (by rfl)]
  case h_2 children _ _ some =>
    have filled : escapeText e.text ++ markup (children.map met.spelled) ≠ [] := by
      rw [Ne, List.append_eq_nil_iff, escapeText_eq_nil_iff, markup_eq_nil_iff]
      rintro ⟨blank, none⟩
      cases children with
      | nil => exact some rfl (String.toList_eq_nil_iff.mp blank)
      | node => cases none
    rw [if_neg filled]
    simp

/-- A tree whose names can be parted is written. -/
theorem writeForest_eq (parted : ∀ e ∈ f.toList, e.Parted) :
    writeForest met [] f = .ok (markup (f.map met.spelled)) := by
  induction f with
  | nil => rfl
  | node e children siblings ihc ihs =>
      obtain ⟨own, inside⟩ := List.forall_mem_cons.mp parted
      obtain ⟨inside, later⟩ := List.forall_mem_append.mp inside
      exact writeForest_node own (ihc inside) (ihs later) []

theorem parted_of_meets (meets : Spaces.Meets (namesOf f.toList) met) : ∀ e ∈ f.toList, e.Parted := by
  intro e mem n named
  exact meets.parted n (List.mem_flatMap.mpr ⟨e, mem, named⟩)

/-- The markup of a document, once its namespaces are met. -/
theorem write_eq {children : Forest Element}
    (all : (namesOf (Forest.node e children .nil).toList).foldlM Spaces.meet [] = .ok met) :
    write (.node e children .nil) = .ok (.ofList (markup
      (.node ((met.spelled e).declaring met.declared) (children.map met.spelled) .nil))) := by
  have parted := parted_of_meets (Spaces.Meets.nil.foldlM all)
  obtain ⟨own, inside⟩ := List.forall_mem_cons.mp parted
  obtain ⟨inside, -⟩ := List.forall_mem_append.mp inside
  have inner : writeForest met [] children = .ok (markup (children.map met.spelled)) := writeForest_eq inside
  have last : writeForest met [] .nil = .ok (markup ((Forest.nil : Forest Element).map met.spelled)) := rfl
  have written := writeForest_node own inner last met.declared
  rw [← met.declarations_eq] at written
  rw [write, all]
  simp only [bind, Except.bind]
  rw [written]
  rfl

/-! ## Reading what was written -/

/-- An attribute of this name neither spoils its tag nor declares a namespace. -/
structure Harmless (w : List Char) : Prop where
  equals : '=' ∉ w
  angle : '>' ∉ w
  quiet : ∀ q, readName? w = some q → q.declaresNamespace = false

namespace Spaces

variable {s : Spelled}

theorem Sound.proper_declared (sound : met.Sound) :
    ∀ a ∈ met.declared, a.1.IsProper ∧ a.1.declaresNamespace = true := by
  intro a mem
  obtain ⟨p, there, rfl⟩ := List.mem_map.mp mem
  exact ⟨sound.proper_declaring (mem_sorted.mp there), declaresNamespace_declaring p.2⟩

/-- What is declared is what names are bound by, if all of it can be declared. -/
theorem Sound.declareAll?_declared (sound : met.Sound) (inner : Bindings) :
    Bindings.initial.declareAll? (met.declared.map fun a => (a.1, a.2.toList)) = some inner ↔
      (∀ p ∈ met, Declarable p.1) ∧ met.bindings = inner := by
  have all := sound.foldlM_declare? (l := met.sorted) (fun _ mem => mem_sorted.mp mem) .initial
  simp only [mem_sorted] at all
  rw [Spaces.declared, List.map_map]
  refine (Eq.congr_left all).trans ?_
  split
  case isTrue good => rw [and_iff_right good, Option.some.injEq, bindings]
  case isFalse bad => rw [iff_false_left (by simp), not_and]; exact fun good => absurd good bad

theorem Sound.plain_declaring (sound : met.Sound) (proper : s.name.IsProper)
    (marks : ∀ a ∈ s.attributes, '=' ∉ a.1 ∧ '>' ∉ a.1) : (s.declaring met.declared).Plain where
  name := proper
  attributes := by
    refine List.forall_mem_append.mpr ⟨List.forall_mem_map.mpr fun a mem => ?_, marks⟩
    exact (sound.proper_declared a mem).1.readable.marks

theorem Sound.plain_tree {children : Forest Element} (sound : met.Sound)
    (proper : ∀ x ∈ (Forest.node e children .nil).toList, (met.shown x.name).IsProper)
    (marks : ∀ x ∈ (Forest.node e children .nil).toList, ∀ a ∈ x.attributes,
      '=' ∉ (met.shown a.1).spelling ∧ '>' ∉ (met.shown a.1).spelling) :
    ∀ s ∈ (Forest.node ((met.spelled e).declaring met.declared) (children.map met.spelled) .nil).toList, s.Plain := by
  have plain : ∀ s ∈ ((Forest.node e children .nil).map met.spelled).toList,
      s.name.IsProper ∧ ∀ a ∈ s.attributes, '=' ∉ a.1 ∧ '>' ∉ a.1 := by
    rw [Forest.toList_map, List.forall_mem_map]
    exact fun x mem => ⟨proper x mem, List.forall_mem_map.mpr (marks x mem)⟩
  obtain ⟨own, inside⟩ := List.forall_mem_cons.mp plain
  exact List.forall_mem_cons.mpr ⟨sound.plain_declaring own.1 own.2, fun s mem => ⟨(inside s mem).1, (inside s mem).2⟩⟩

end Spaces

/-- What the markup of a tree is read as, where its names are spelled so that they neither spoil a tag nor declare
a namespace. -/
theorem root?_markup_iff {children : Forest Element} {g : Forest Element} (sound : met.Sound)
    (proper : ∀ x ∈ (Forest.node e children .nil).toList, (met.shown x.name).IsProper)
    (harmless : ∀ x ∈ (Forest.node e children .nil).toList, ∀ a ∈ x.attributes, Harmless (met.shown a.1).spelling)
    (last : e.tail = "") :
    root? (markup (.node ((met.spelled e).declaring met.declared) (children.map met.spelled) .nil)) = some g ↔
      (∀ p ∈ met, Spaces.Declarable p.1 ∧ p.1.toList.all isMarkupChar = true) ∧
        (Forest.node e children .nil).Alike (fun x x' => (met.spelled x).ReadAs met.bindings x') g := by
  have silent : ∀ s ∈ ((Forest.node e children .nil).map met.spelled).toList, s.Silent := by
    rw [Forest.toList_map, List.forall_mem_map]
    exact fun x mem => List.forall_mem_map.mpr fun a there => (harmless x mem a there).quiet
  obtain ⟨d, -, none, read⟩ := root?_markup (sound.plain_tree proper fun x mem a there =>
    ⟨(harmless x mem a there).equals, (harmless x mem a there).angle⟩) last
  have chars : (∀ a ∈ met.declared, a.2.toList.all isMarkupChar = true) ↔
      ∀ p ∈ met, p.1.toList.all isMarkupChar = true := by
    simp only [Spaces.declared, List.forall_mem_map, Spaces.mem_sorted]
  refine (Eq.congr_left read).trans ((reread?_declaring_iff none silent sound.proper_declared
    sound.nodup_declared).trans ?_)
  simp only [sound.declareAll?_declared, chars]
  constructor
  · rintro ⟨chars, inner, ⟨good, rfl⟩, alike⟩
    exact ⟨fun p mem => ⟨good p mem, chars p mem⟩, Forest.alike_map_left.mp alike⟩
  · rintro ⟨good, alike⟩
    exact ⟨fun p mem => (good p mem).2, met.bindings, ⟨fun p mem => (good p mem).1, rfl⟩,
      Forest.alike_map_left.mpr alike⟩

end SvgForm.Xml
