import SvgForm.Proofs.Document.Content
import SvgForm.Proofs.Document.Tree
import SvgForm.Proofs.Xml.Lasting
/-! # Documents written and read again

A document that was read is always written. Reading that gives back the document as a reader finds it, with its
handles, tags, attributes and texts, exactly if all its elements are lasting.
-/

namespace SvgForm.Forest

variable {α : Type}

/-- Labelling the numbers of a forest again. -/
theorem map_number {f : Forest α} {g : Nat → α} {n : Nat}
    (label : ∀ i a, f.toList[i]? = some a → g (n + i) = a) : (f.number n).map g = f := by
  induction f generalizing n with
  | nil => rfl
  | node a children siblings ihc ihs =>
      have below := ihc (n := n + 1) fun i b found => by
        have here : (node a children siblings).toList[i + 1]? = some b := by
          rw [toList, List.getElem?_cons_succ, List.getElem?_append_left (List.getElem?_eq_some_iff.mp found).1, found]
        rw [Nat.add_right_comm, Nat.add_assoc, label (i + 1) b here]
      have after := ihs (n := n + 1 + children.toList.length) fun i b found => by
        have here : (node a children siblings).toList[children.toList.length + i + 1]? = some b := by
          rw [toList, List.getElem?_cons_succ, List.getElem?_append_right (Nat.le_add_right _ _),
            Nat.add_sub_cancel_left, found]
        rw [← label _ b here]
        congr 1
        omega
      have first : g n = a := label 0 a rfl
      rw [number, map, first, below, after]

end SvgForm.Forest

namespace SvgForm.Document

variable {d d' : Document} {f g : Forest Xml.Element} {markup : String}

/-! ## Documents of trees -/

theorem toTree_ofTree (f : Forest Xml.Element) : (ofTree f).toTree = f := by
  refine Forest.map_number fun i e found => ?_
  rw [element, ofTree, List.getElem?_toArray, Nat.zero_add, found, Option.getD_some]

theorem map_element_handles (d : Document) : d.handles.map d.element = d.toTree.toList := by
  rw [toTree, Forest.toList_map, handles]

/-- The documents that are read are those of trees whose root is called `svg`. -/
theorem parse_eq_ok_iff : parse markup = .ok d ↔ Text.allBlank markup.toList = false ∧
    ∃ tree, Xml.root? markup.toList = some tree ∧ d = ofTree tree ∧ d.tag root = "svg" := by
  rw [parse]
  cases Text.allBlank markup.toList with
  | true => simp
  | false =>
      cases Xml.root? markup.toList with
      | none => simp
      | some tree =>
          simp only [Bool.false_eq_true, if_false, Option.some.injEq, exists_eq_left', true_and]
          split
          case isTrue named =>
            rw [Except.ok.injEq, eq_comm, iff_self_and]
            rintro rfl
            exact named
          case isFalse other =>
            simp only [reduceCtorEq, false_iff, not_and]
            rintro rfl
            exact other

/-! ## What a reader finds -/

/-- Documents in which a reader finds the same elements, with the same attributes and texts. -/
structure SameReading (d d' : Document) : Prop where
  handles : d'.handles = d.handles
  tag : ∀ h ∈ d.handles, d'.tag h = d.tag h
  attributes : ∀ h ∈ d.handles, (d'.element h).attributes = (d.element h).attributes
  text : ∀ h ∈ d.handles, d'.text h = d.text h

theorem element_ofTree {h : Handle} (mem : h ∈ (ofTree f).handles) :
    ∃ inside : h < f.toList.length, (ofTree f).element h = f.toList.get ⟨h, inside⟩ := by
  rw [handles, ofTree, Forest.toList_number, List.mem_range'_1, Nat.zero_add] at mem
  refine ⟨mem.2, ?_⟩
  rw [element, ofTree, List.getElem?_toArray, List.getElem?_eq_getElem mem.2, Option.getD_some, List.get_eq_getElem]

theorem SameReading.of_alike (alike : f.Alike Xml.Element.SameReading g) : SameReading (ofTree f) (ofTree g) := by
  have outline : (ofTree g).outline = (ofTree f).outline := alike.number 0
  have handles : (ofTree g).handles = (ofTree f).handles := by rw [Document.handles, outline, Document.handles]
  have below (h : Handle) : (ofTree g).below h = (ofTree f).below h := by
    rw [Document.below, outline]
    rfl
  have element : ∀ h ∈ (ofTree f).handles, ((ofTree f).element h).SameReading ((ofTree g).element h) := by
    intro h mem
    obtain ⟨inside, same⟩ := element_ofTree mem
    rw [← handles] at mem
    obtain ⟨inside', same'⟩ := element_ofTree mem
    rw [same, same']
    exact alike.toList.get inside inside'
  refine ⟨handles, fun h mem => (element h mem).name, fun h mem => (element h mem).attributes, fun h mem => ?_⟩
  have inside : (ofTree g).textOf ((ofTree f).below h) = (ofTree f).textOf ((ofTree f).below h) :=
    textOf_eq fun x listed => ⟨(element x (below_subset mem listed)).text, (element x (below_subset mem listed)).tail⟩
  rw [Document.text, Document.text, (element h mem).text, below, inside]

/-- A reader who finds no carriage return in the whole text finds none in any element. -/
theorem SameReading.lasting {e : Xml.Element} {children : Forest Xml.Element} (last : e.tail = "")
    (same : SameReading (ofTree (.node e children .nil)) d')
    (lasting : ∀ h ∈ d'.handles, (d'.element h).Lasting) :
    ∀ h ∈ (ofTree (.node e children .nil)).handles, ((ofTree (.node e children .nil)).element h).Lasting := by
  generalize whole : ofTree (.node e children .nil) = d at same ⊢
  have outline : d.outline = .node root (children.number 1) .nil := by
    rw [← whole]
    rfl
  have tail : (d.element root).tail = "" := by
    rw [← whole]
    exact last
  have below : d.below root = children.number 1 := by
    rw [Document.below, outline, Forest.childrenOf?, if_pos rfl]
    rfl
  have listed : root ∈ d.handles := by
    rw [Document.handles, outline]
    exact List.mem_cons_self
  have absent : '\r' ∉ (d.text root).toList := by
    rw [← same.text root listed, Document.text, String.toList_append, List.mem_append, mem_textOf_iff]
    rintro (here | ⟨x, mem, here | here⟩)
    · exact (lasting root (same.handles ▸ listed)).text here
    · exact (lasting x (below_subset (same.handles ▸ listed) mem)).text here
    · exact (lasting x (below_subset (same.handles ▸ listed) mem)).tail here
  rw [Document.text, String.toList_append, List.mem_append, mem_textOf_iff, below, not_or] at absent
  intro h mem
  have names := (lasting h (same.handles ▸ mem)).names
  rw [same.attributes h mem] at names
  rw [Document.handles, outline, Forest.toList, List.mem_cons, Forest.toList, List.append_nil] at mem
  rcases mem with rfl | inside
  · exact ⟨absent.1, by simp [tail], names⟩
  · exact ⟨fun here => absent.2 ⟨h, inside, .inl here⟩, fun here => absent.2 ⟨h, inside, .inr here⟩, names⟩

/-! ## Writing and reading again -/

/-- A document that was read, with its tree and the short forms by which this is written. -/
structure Spelled (d : Document) (e : Xml.Element) (children : Forest Xml.Element) (met : Xml.Spaces) : Prop where
  tree : d = ofTree (.node e children .nil)
  named : Xml.localName e.name = "svg"
  last : e.tail = ""
  legible : ∀ x ∈ (Forest.node e children .nil).toList, x.Legible
  meets : Xml.Spaces.Meets (Xml.namesOf (Forest.node e children .nil).toList) met
  serialized : d.serialize = .ok (.ofList (Xml.markup
    (.node ((met.spelled e).declaring met.declared) (children.map met.spelled) .nil)))

/-- A document that was read is written. -/
theorem exists_spelled (parsed : parse markup = .ok d) : ∃ e children met, d.Spelled e children met := by
  obtain ⟨-, tree, read, rfl, named⟩ := parse_eq_ok_iff.mp parsed
  obtain ⟨⟨e, children, rfl, last⟩, legible⟩ := Xml.legible_of_root? read
  obtain ⟨met, all⟩ := Xml.exists_meets_of_legible legible
  refine ⟨e, children, met, rfl, named, last, legible, Xml.Spaces.Meets.nil.foldlM all, ?_⟩
  rw [serialize, toTree_ofTree, Xml.write_eq all]

theorem forall_elements {P : Xml.Element → Prop} :
    (∀ h ∈ (ofTree f).handles, P ((ofTree f).element h)) ↔ ∀ e ∈ f.toList, P e := by
  rw [← List.forall_mem_map, map_element_handles, toTree_ofTree]

/-- The markup gives the document back as a reader finds it. -/
def ReadsBack (d : Document) : Prop :=
  ∃ written d', d.serialize = .ok written ∧ parse written = .ok d' ∧ d.SameReading d'

theorem lasting_of_readsBack (parsed : parse markup = .ok d) (back : d.ReadsBack) :
    ∀ h ∈ d.handles, (d.element h).Lasting := by
  obtain ⟨e, children, met, rfl, -, last, legible, meets, serialized⟩ := exists_spelled parsed
  obtain ⟨written, d', again, reparsed, same⟩ := back
  obtain rfl := Except.ok.inj (serialized.symm.trans again)
  obtain ⟨-, g, read, rfl, -⟩ := parse_eq_ok_iff.mp reparsed
  rw [String.toList_ofList] at read
  have plain := meets.sound.plain_tree (Xml.proper_of_legible legible meets) (Xml.marks_of_legible legible meets)
  obtain ⟨declarations, -, none, reading⟩ := Xml.root?_markup plain last
  have modest : ∀ s ∈ ((Forest.node e children .nil).map met.spelled).toList, s.Modest := by
    rw [Forest.toList_map, List.forall_mem_map]
    exact Xml.modest_of_legible legible meets
  obtain ⟨own, inside⟩ := List.forall_mem_cons.mp modest
  have lasting : ∀ x ∈ g.toList, x.Lasting := by
    refine Xml.lasting_of_reread? none .initial ?_ (reading.symm.trans read)
    exact List.forall_mem_cons.mpr ⟨meets.sound.modest_declaring own, inside⟩
  exact same.lasting last (forall_elements.mpr lasting)

theorem readsBack_of_lasting (parsed : parse markup = .ok d) (lasting : ∀ h ∈ d.handles, (d.element h).Lasting) :
    d.ReadsBack := by
  obtain ⟨e, children, met, rfl, named, last, legible, meets, serialized⟩ := exists_spelled parsed
  have lasting := forall_elements.mp lasting
  obtain ⟨g, alike⟩ := Forest.exists_alike_iff.mpr fun x mem =>
    Xml.exists_sameReading meets (Xml.mem_namesOf mem) (legible x mem) (lasting x mem)
  have read := (Xml.root?_markup_of_lasts meets legible last fun x mem => (lasting x mem).names).mpr
    (alike.imp fun _ _ both => both.1)
  have same := SameReading.of_alike (alike.imp fun _ _ both => both.2)
  refine ⟨_, ofTree g, serialized, parse_eq_ok_iff.mpr ⟨?_, g, ?_, rfl, ?_⟩, same⟩
  · rw [String.toList_ofList]
    rfl
  · rw [String.toList_ofList, read]
  · exact (same.tag root List.mem_cons_self).trans named

/-- Writing a document that was read and reading it again gives the document back, as a reader finds it, exactly if
all its elements are lasting. -/
theorem readsBack_iff (parsed : parse markup = .ok d) : d.ReadsBack ↔ ∀ h ∈ d.handles, (d.element h).Lasting :=
  ⟨lasting_of_readsBack parsed, readsBack_of_lasting parsed⟩

theorem exists_of_parsed {p : Document → Bool} (found : (parse markup).toOption.any p = true) :
    ∃ d, parse markup = .ok d ∧ p d = true := by
  cases read : parse markup with
  | error e => simp [read, Except.toOption] at found
  | ok d => exact ⟨d, rfl, by simpa [read, Except.toOption] using found⟩

def linkMarkup : String :=
  "<svg xmlns=\"http://www.w3.org/2000/svg\" xmlns:l=\"http://www.w3.org/1999/xlink\">" ++
    "<a l:href=\"#b&#10;c\">x &lt; y &amp; z</a></svg>"

theorem link_readsBack : ∃ d, parse linkMarkup = .ok d ∧ d.ReadsBack := by
  have lasting : (parse linkMarkup).toOption.any
      (fun d => decide (∀ h ∈ d.handles, (d.element h).Lasting)) = true := by decide +kernel
  obtain ⟨d, parsed, lasting⟩ := exists_of_parsed lasting
  exact ⟨d, parsed, (readsBack_iff parsed).mpr (of_decide_eq_true lasting)⟩

/-- A carriage return comes into a text by its number, and its markup ends a line. -/
theorem return_not_readsBack : ∃ d, parse "<svg><text>a&#13;b</text></svg>" = .ok d ∧ ¬ d.ReadsBack := by
  have passing : (parse "<svg><text>a&#13;b</text></svg>").toOption.any
      (fun d => decide (¬ ∀ h ∈ d.handles, (d.element h).Lasting)) = true := by decide +kernel
  obtain ⟨d, parsed, passing⟩ := exists_of_parsed passing
  exact ⟨d, parsed, fun back => of_decide_eq_true passing (lasting_of_readsBack parsed back)⟩

end SvgForm.Document
