import Mathlib.Data.List.Find
import SvgForm.Proofs.Identity.Ensure
import SvgForm.Proofs.Patch.LastWrite
import SvgForm.Proofs.Patch.Reorder
import SvgForm.Proofs.Xml.AttributeOrder
/-! # Patches applied twice

Patches that write, and a reorder after them, are applied to a document and then to what came of it. Texts are
written into elements that have no children any more, attributes are set to the values they have, and what was
moved is in place, as long as the patches lead to the same elements as before: not where an element that hid
another with the same name has left the tree, nor where the elements of one name have changed places.
-/

namespace SvgForm.Document

variable {d d' once : Document} {holder target : String} {h x : Handle} {p : Patch} {ps : List Patch}

/-! ## What is looked up again -/

theorem findSome?_congr {α β : Type} {f g : α → Option β} {l : List α} (same : ∀ a ∈ l, f a = g a) :
    l.findSome? f = l.findSome? g := by
  induction l with
  | nil => rfl
  | cons a l ih =>
      rw [List.findSome?_cons, List.findSome?_cons, same a List.mem_cons_self,
        ih fun b hb => same b (List.mem_cons_of_mem a hb)]

theorem locate?_congr (same : SameLookups holder d d') (handles : d'.handles = d.handles)
    (target : String) : d'.locate? holder target = d.locate? holder target := by
  rw [locate?, locate?, find?, find?, handles]
  refine ite_congr rfl (fun _ => rfl) fun _ => findSome?_congr fun name mem => ?_
  exact List.find?_congr fun h _ => by rw [same.get? h name mem]

/-- What led to an element that is still in the tree leads to it again, if it leads to no other. -/
theorem locate?_iff_of_again (same : SameLookups holder d d')
    (again : d'.locate? holder target = none ∨ d'.locate? holder target = d.locate? holder target)
    (hx : x ∈ d'.handles) :
    d.locate? holder target = some x ↔ d'.locate? holder target = some x := by
  rcases again with nothing | again
  · rw [nothing, iff_false_right (by simp)]
    intro located
    obtain ⟨nonempty, _, carries⟩ := locate?_spec located
    obtain ⟨h, found⟩ := exists_locate? nonempty hx (same.carries_iff.mpr carries)
    rw [nothing] at found
    cases found
  · rw [again]

theorem locate?_eq_of_again (same : SameLookups holder d d') (kept : d.handles ⊆ d'.handles)
    (again : d'.locate? holder target = none ∨ d'.locate? holder target = d.locate? holder target) :
    d'.locate? holder target = d.locate? holder target := by
  cases located : d.locate? holder target with
  | none => rwa [located, or_self] at again
  | some x => exact (locate?_iff_of_again same again (kept (locate?_spec located).2.1)).mp located

/-- Whether all that patches look up leads in another document to the same element as when their turn comes, or
to none. -/
def FindsAgain (holder : String) (other : Document) : List Patch → Document → Prop
  | [], _ => True
  | p :: ps, d =>
    (∀ t ∈ d.lookups holder p, other.locate? holder t = none ∨
      other.locate? holder t = d.locate? holder t) ∧
    FindsAgain holder other ps (d.applyPatch holder p).1

instance decidableFindsAgain (holder : String) (other : Document) :
    (ps : List Patch) → (d : Document) → Decidable (FindsAgain holder other ps d)
  | [], _ => .isTrue trivial
  | p :: ps, d =>
    have := decidableFindsAgain holder other ps (d.applyPatch holder p).1
    inferInstanceAs (Decidable (_ ∧ _))

theorem FindsAgain.turn {before after : List Patch} (again : FindsAgain holder d' (before ++ p :: after) d)
    (looked : target ∈ (d.run holder before).lookups holder p) : d'.locate? holder target = none ∨
      d'.locate? holder target = (d.run holder before).locate? holder target := by
  induction before generalizing d with
  | nil => exact again.1 target looked
  | cons q before ih => exact ih again.2 looked

/-! ## Documents at rest -/

/-- Documents that differ at most in attributes and texts. -/
structure SameTree (d d' : Document) : Prop where
  outline : d'.outline = d.outline
  detached : d'.detached = d.detached
  size : d'.elements.size = d.elements.size

namespace SameTree

theorem refl (d : Document) : SameTree d d := ⟨rfl, rfl, rfl⟩

theorem trans {d₁ d₂ d₃ : Document} (first : SameTree d₁ d₂) (second : SameTree d₂ d₃) :
    SameTree d₁ d₃ where
  outline := second.outline.trans first.outline
  detached := second.detached.trans first.detached
  size := second.size.trans first.size

theorem handles (same : SameTree d d') : d'.handles = d.handles := by
  rw [Document.handles, Document.handles, same.outline]

theorem below (same : SameTree d d') (h : Handle) : d'.below h = d.below h := by
  rw [Document.below, Document.below, same.outline, same.detached]

theorem setText (hd : d.WellFormed) (hh : h ∈ d.handles) (childless : d.below h = .nil) (text : String) :
    SameTree d (d.setText h text) where
  outline := Forest.mapChildren_eq_self hd.handles_nodup (childrenOf?_below hh) childless.symm
  detached := by
    rw [Document.setText, childless, Forest.mapChildren_of_not_mem (hd.not_mem_detached hh),
      Forest.append_nil]
  size := Array.size_modify ..

theorem write {w : Handle × Xml.Change} (hd : d.WellFormed) (hw : w.1 ∈ d.handles)
    (childless : w.2.text?.isSome → d.below w.1 = .nil) : SameTree d (d.write w) := by
  obtain ⟨h, c⟩ := w
  cases c with
  | text s => exact .setText hd hw (childless rfl) s
  | set name value => exact ⟨rfl, rfl, size_write d (h, .set name value)⟩
  | remove name => exact ⟨rfl, rfl, size_write d (h, .remove name)⟩

end SameTree

theorem sameLookups_write {w : Handle × Xml.Change} (hd : d.WellFormed) (writer : p.isReorder = false)
    (spares : p.Spares holder) (made : d.write? holder p = some w) : SameLookups holder d (d.write w) := by
  have written : (d.applyPatch holder p).1 = d.write w := by
    rw [applyPatch_eq_write writer, made, Option.map_some, Option.getD_some]
  exact written ▸ sameLookups_applyPatch hd spares

theorem eq_of_sameTree (tree : SameTree d d') (same : ∀ x, d'.element x = d.element x) : d' = d := by
  have elements : d'.elements = d.elements := Array.ext tree.size fun i hi hi' => by
    simpa [element, hi, hi'] using same i
  obtain ⟨_, _, _⟩ := d
  obtain ⟨_, _, _⟩ := d'
  rw [mk.injEq]
  exact ⟨elements, tree.outline, tree.detached⟩

/-- Patches whose texts go to elements without children leave the tree alone. -/
theorem sameTree_run (hd : d.WellFormed) (writers : ∀ p ∈ ps, p.isReorder = false)
    (spares : ∀ p ∈ ps, p.Spares holder) (childless : ∀ p ∈ ps, p.isText = true → ∀ h,
      d.locate? holder p.id = some h → d.below h = .nil) : SameTree d (d.run holder ps) := by
  induction ps, d using writes.induct holder with
  | case1 d => exact .refl d
  | case2 p ps d w made ih =>
      obtain ⟨writer, writers'⟩ := List.forall_mem_cons.mp writers
      obtain ⟨spare, spares'⟩ := List.forall_mem_cons.mp spares
      obtain ⟨first, rest⟩ := List.forall_mem_cons.mp childless
      obtain ⟨located, change⟩ := write?_spec made
      have same : SameLookups holder d (d.write w) := sameLookups_write hd writer spare made
      have tree : SameTree d (d.write w) := by
        refine .write hd (locate?_spec located).2.1 fun text => first ?_ w.1 located
        have texts := p.text?_change?
        rw [change, Option.bind_some] at texts
        rw [texts] at text
        by_contra noText
        rw [if_neg noText] at text
        cases text
      -- With the same tree and the same values to look up, the other targets lead where they led.
      rw [run_cons_of_write writer made]
      refine tree.trans (ih same.wellFormed writers' spares' fun q hq text h located' => ?_)
      rw [locate?_congr same tree.handles] at located'
      rw [tree.below]
      exact rest q hq text h located'
  | case3 p ps d made ih =>
      obtain ⟨writer, writers'⟩ := List.forall_mem_cons.mp writers
      rw [run_cons_of_none writer made]
      exact ih hd writers' (fun q hq => spares q (List.mem_cons_of_mem p hq))
        fun q hq => childless q (List.mem_cons_of_mem p hq)

/-! ## The second application -/

/-- A document that comes of another by patches that only write, up to the order of siblings, and in which
these patches, and others after them, find again what they found. -/
structure AppliedOnce (holder : String) (ps rest : List Patch) (d once : Document) : Prop where
  start : d.WellFormed
  writers : ∀ p ∈ ps, p.isReorder = false
  spares : ∀ p ∈ ps, p.Spares holder
  rearranged : Rearranged (d.run holder ps) once
  lookups : SameLookups holder (d.run holder ps) once
  again : FindsAgain holder once (ps ++ rest) d

namespace AppliedOnce

variable {rest : List Patch}

theorem wellFormed_run (applied : AppliedOnce holder ps rest d once) : (d.run holder ps).WellFormed :=
  (sameLookups_run applied.start applied.spares).wellFormed

/-- An element that is still in the tree got the changes of the patches that would lead to it now. -/
theorem changesAt_first (applied : AppliedOnce holder ps rest d once) (hx : x ∈ once.handles) :
    changesAt x (d.writes holder ps) =
      ps.filterMap fun p => if once.locate? holder p.id = some x then p.change? else none := by
  refine changesAt_writes applied.writers ?_
  rintro before p after rfl
  obtain ⟨early, late⟩ := List.forall_mem_append.mp applied.spares
  have step := sameLookups_run (sameLookups_run applied.start early).wellFormed late
  rw [← run_append] at step
  have again := applied.again
  rw [List.append_assoc, List.cons_append] at again
  exact locate?_iff_of_again (step.trans applied.lookups) (again.turn List.mem_cons_self) hx

theorem childless (applied : AppliedOnce holder ps rest d once) (hp : p ∈ ps) (text : p.isText = true)
    (located : once.locate? holder p.id = some h) : once.below h = .nil := by
  -- The patch led to the same element the first time, and so left it without children.
  have hh := (locate?_spec located).2.1
  have old : h ∈ (d.run holder ps).handles := applied.rearranged.handles.subset hh
  have written : (changesAt h (d.writes holder ps)).filterMap (·.text?) ≠ [] := by
    have mine : p.value.display ∈ (changesAt h (d.writes holder ps)).filterMap (·.text?) := by
      rw [applied.changesAt_first hh, List.filterMap_filterMap]
      refine List.mem_filterMap.mpr ⟨p, hp, ?_⟩
      rw [if_pos located, p.text?_change?, if_pos text]
    exact List.ne_nil_of_mem mine
  have children := children_run applied.start applied.writers old
  rw [if_neg written] at children
  have nothing : (d.run holder ps).below h = .nil := Forest.eq_nil_of_roots children
  refine Forest.eq_nil_of_forall_not_mem fun y inside => ?_
  rw [applied.lookups.wellFormed.mem_below_iff hh, applied.rearranged.below,
    ← applied.wellFormed_run.mem_below_iff old, nothing] at inside
  exact absurd inside List.not_mem_nil

theorem sameTree (applied : AppliedOnce holder ps rest d once) : SameTree once (once.run holder ps) :=
  sameTree_run applied.lookups.wellFormed applied.writers applied.spares
    fun _ hp text _ located => applied.childless hp text located

theorem locate?_run (applied : AppliedOnce holder ps rest d once) (target : String) :
    (once.run holder ps).locate? holder target = once.locate? holder target :=
  locate?_congr (sameLookups_run applied.lookups.wellFormed applied.spares) applied.sameTree.handles target

theorem changesAt_second (applied : AppliedOnce holder ps rest d once) (x : Handle) :
    changesAt x (once.writes holder ps) =
      ps.filterMap fun p => if once.locate? holder p.id = some x then p.change? else none := by
  refine changesAt_writes applied.writers ?_
  rintro before p after rfl
  obtain ⟨early, _⟩ := List.forall_mem_append.mp applied.spares
  obtain ⟨writers, _⟩ := List.forall_mem_append.mp applied.writers
  have tree : SameTree once (once.run holder before) :=
    sameTree_run applied.lookups.wellFormed writers early
      fun _ hq text _ located => applied.childless (List.mem_append_left _ hq) text located
  rw [locate?_congr (sameLookups_run applied.lookups.wellFormed early) tree.handles]

theorem element_once (applied : AppliedOnce holder ps rest d once) (x : Handle) :
    once.element x = Xml.Change.applyAll (changesAt x (d.writes holder ps)) (d.element x) := by
  rw [← element_run applied.start applied.writers, element, element, applied.rearranged.elements]

/-- An element in the tree gets the same changes again. -/
theorem element_again (applied : AppliedOnce holder ps rest d once) (hx : x ∈ once.handles) :
    (once.run holder ps).element x =
      Xml.Change.applyAll (changesAt x (d.writes holder ps)) (once.element x) := by
  rw [element_run applied.lookups.wellFormed applied.writers, applied.changesAt_second,
    applied.changesAt_first hx]

/-- No other one gets any. -/
theorem element_outside (applied : AppliedOnce holder ps rest d once) (hx : x ∉ once.handles) :
    (once.run holder ps).element x = once.element x := by
  have none : changesAt x (once.writes holder ps) = [] := by
    rw [applied.changesAt_second, List.filterMap_eq_nil_iff]
    exact fun p _ => if_neg fun located => hx (locate?_spec located).2.1
  rw [element_run applied.lookups.wellFormed applied.writers, none]
  rfl

theorem sameContent (applied : AppliedOnce holder ps rest d once) :
    SameContent once (once.run holder ps) where
  outline := applied.sameTree.outline
  detached := applied.sameTree.detached
  size := applied.sameTree.size
  bare := by
    intro x
    by_cases hx : x ∈ once.handles
    · rw [applied.element_again hx, applied.element_once, Xml.Change.bare_applyAll_twice]
    · rw [applied.element_outside hx]

theorem attribute?_again (applied : AppliedOnce holder ps rest d once) (x : Handle) (name : String) :
    ((once.run holder ps).element x).attribute? name = (once.element x).attribute? name := by
  by_cases hx : x ∈ once.handles
  · rw [applied.element_again hx, applied.element_once, Xml.Change.attribute?_applyAll_twice]
  · rw [applied.element_outside hx]

theorem run_again_iff (applied : AppliedOnce holder ps rest d once) : once.run holder ps = once ↔
    ∀ x ∈ once.handles, ¬ Xml.Change.Unsettled (d.element x).attributes (changesAt x (d.writes holder ps)) := by
  constructor
  · intro same x hx
    have again := applied.element_again hx
    rw [same, applied.element_once] at again
    exact Xml.Change.applyAll_twice_iff.mp again.symm
  · intro settled
    refine eq_of_sameTree applied.sameTree fun x => ?_
    by_cases hx : x ∈ once.handles
    · rw [applied.element_again hx, applied.element_once, Xml.Change.applyAll_twice_iff.mpr (settled x hx)]
    · exact applied.element_outside hx

end AppliedOnce

variable {last : Option Patch} {twice : Document} {raws : List Datum}

theorem appliedOnce_run (hd : d.WellFormed) (writers : ∀ p ∈ ps, p.isReorder = false)
    (spares : ∀ p ∈ ps, p.Spares holder) (mover : ∀ p ∈ last, p.isReorder = true)
    (again : FindsAgain holder (d.run holder (ps ++ last.toList)) (ps ++ last.toList) d) :
    AppliedOnce holder ps last.toList d (d.run holder (ps ++ last.toList)) where
  start := hd
  writers := writers
  spares := spares
  rearranged := by
    rw [run_append]
    cases last with
    | none => exact .refl _
    | some p => exact rearranged_applyPatch (mover p rfl)
  lookups := by
    rw [run_append]
    refine sameLookups_run (sameLookups_run hd spares).wellFormed fun p hp => .inr (.inl ?_)
    exact mover p (Option.mem_toList.mp hp)
  again := again

/-- The reorder that comes last leaves what it did. -/
theorem run_last (applied : AppliedOnce holder ps last.toList d once)
    (mover : ∀ p ∈ last, p.isReorder = true) (first : d.run holder (ps ++ last.toList) = once) :
    once.run holder (ps ++ last.toList) = once.run holder ps := by
  rw [run_append] at first ⊢
  cases last with
  | none => rfl
  | some p =>
      refine applyPatch_again applied.wellFormed_run (mover p rfl) ?_ fun t looked => ?_
      · rw [applied.sameTree.outline, ← first]
        rfl
      · rw [applied.locate?_run]
        exact locate?_eq_of_again applied.lookups applied.rearranged.handles.symm.subset
          (applied.again.turn looked)

/-- Patches that write elsewhere than where elements are found, and at most one reorder after them, change
nothing but the order of attributes when they are applied again, if all that they look up leads to the same
element again or to none. Where they are settled at every element, they change nothing at all. -/
theorem patchAll_twice (hd : d.Reachable) (read : Datum.patches raws = ps ++ last.toList)
    (writers : ∀ p ∈ ps, p.isReorder = false) (spares : ∀ p ∈ ps, p.Spares holder)
    (mover : ∀ p ∈ last, p.isReorder = true) (first : (d.patchAll holder raws).1 = once)
    (second : (once.patchAll holder raws).1 = twice)
    (again : FindsAgain holder once (Datum.patches raws) d) :
    SameContent once twice ∧
    (∀ x name, (twice.element x).attribute? name = (once.element x).attribute? name) ∧
    ((∀ x ∈ once.handles, ¬ Xml.Change.Unsettled (d.element x).attributes
        (changesAt x (d.writes holder ps))) → twice = once ∧ twice.serialize = once.serialize) ∧
    (twice = once → ∀ x ∈ once.handles, ¬ Xml.Change.Unsettled (d.element x).attributes
      (changesAt x (d.writes holder ps))) := by
  rw [patchAll_eq_run, read] at first second
  rw [read] at again
  have applied : AppliedOnce holder ps last.toList d once := by
    subst first
    exact appliedOnce_run hd.wellFormed writers spares mover again
  rw [run_last applied mover first] at second
  subst second
  refine ⟨applied.sameContent, applied.attribute?_again, fun settled => ?_, applied.run_again_iff.mp⟩
  rw [applied.run_again_iff.mpr settled]
  exact ⟨rfl, rfl⟩

/-- A patch that moves an element after another. -/
def afterPatch (target after : String) : Datum :=
  .record [("id", .value (.text target)), ("attribute", .value (.text Patch.reorderName)),
    ("value", .record [("after_id", .value (.text after))])]

/-- What comes of a document with identities, once patches are applied to it. -/
def patchedOnce (d : Document) (raws : List Datum) : Document :=
  ((d.ensureIdentities identityAttribute).patchAll identityAttribute raws).1

def patchedTwice (d : Document) (raws : List Datum) : Document :=
  ((d.patchedOnce raws).patchAll identityAttribute raws).1

/-- Whether the markup is the same after both. -/
def SameMarkup (d : Document) (raws : List Datum) : Prop :=
  (d.patchedTwice raws).serialize = (d.patchedOnce raws).serialize

/-- One rectangle. -/
def single : Document :=
  ofTree (.node { name := "svg" } (.ofRoots [rectangle [("id", "A")]]) .nil)

/-- A rectangle in a group, and another with the same id. -/
def hidden : Document :=
  ofTree (.node { name := "svg" }
    (.node { name := "g", attributes := [("id", "A")] } (.ofRoots [rectangle [("id", "B")]])
      (.ofRoots [rectangle [("id", "B")]])) .nil)

/-- Two rectangles with one name, and one with another. -/
def namesakes : Document :=
  ofTree (.node { name := "svg" }
    (.ofRoots [rectangle [("name", "n")], rectangle [("name", "n")], rectangle [("id", "Z")]]) .nil)

/-- Applied again, patches may change the order of attributes, lead to an element that was hidden by one that
left the tree, and move an element because another with its name was moved before. -/
theorem patchedTwice_differs :
    ¬ (∀ d : Document, d.Reachable → ∀ raws ps (last : Option Patch),
        raws.map Datum.toPatch = (ps ++ last.toList).map .ok → (∀ p ∈ ps, p.isReorder = false) →
        (∀ p ∈ ps, p.Spares identityAttribute) → (∀ p ∈ last, p.isReorder = true) →
        d.SameMarkup raws) ∧
    ¬ single.SameMarkup [valuePatch "A" "fill" .null, valuePatch "A" "fill" (.text "red"),
        valuePatch "A" "opacity" (.text "0.5")] ∧
    ¬ hidden.SameMarkup [valuePatch "B" "fill" (.text "red"), valuePatch "A" Patch.textName (.text "t")] ∧
    ¬ namesakes.SameMarkup [afterPatch "n" "Z"] := by
  have moved : ¬ namesakes.SameMarkup [afterPatch "n" "Z"] :=
    ne_of_apply_ne Except.toOption (by decide +kernel)
  refine ⟨fun claim => moved ?_, ne_of_apply_ne Except.toOption (by decide +kernel),
    ne_of_apply_ne Except.toOption (by decide +kernel), moved⟩
  refine claim namesakes (.tree _ (by decide)) _ [] (some ⟨"n", Patch.reorderName, .target ⟨some "Z", none⟩⟩)
    rfl ?_ ?_ ?_
  · exact fun p mem => absurd mem List.not_mem_nil
  · exact fun p mem => absurd mem List.not_mem_nil
  · rintro p ⟨⟩
    decide

/-- The text takes a rectangle out of the tree for which there are patches before and after, and the group
goes to the end. -/
def groupPatches : List Datum :=
  [valuePatch "B" "fill" (.text "blue"), valuePatch "C" "fill" .null,
    valuePatch "A" Patch.textName (.text "t"), valuePatch "B" "fill" (.text "green"),
    valuePatch "C" "opacity" (.number (.int 1)), afterPatch "A" "C"]

def groupWriters : List Patch :=
  [⟨"B", "fill", .scalar (.text "blue")⟩, ⟨"C", "fill", .scalar .null⟩,
    ⟨"A", Patch.textName, .scalar (.text "t")⟩, ⟨"B", "fill", .scalar (.text "green")⟩,
    ⟨"C", "opacity", .scalar (.number (.int 1))⟩]

/-- Nothing that is removed is set again. -/
theorem groupPatches_settled {x : Handle} (hx : x ∈ (nested.patchedOnce groupPatches).handles) :
    ¬ Xml.Change.Unsettled ((nested.ensureIdentities identityAttribute).element x).attributes
      (changesAt x ((nested.ensureIdentities identityAttribute).writes identityAttribute groupWriters)) := by
  have attached : (nested.patchedOnce groupPatches).handles = [0, 3, 1] := by decide +kernel
  have changes : [0, 3, 1].map (fun x => changesAt x
      ((nested.ensureIdentities identityAttribute).writes identityAttribute groupWriters)) =
      [[], [.remove "fill", .set "opacity" "1"], [.text "t"]] := by decide +kernel
  simp only [List.map_cons, List.map_nil, List.cons.injEq, and_true] at changes
  obtain ⟨root, rectangle, group⟩ := changes
  refine Xml.Change.settled_of_disjoint fun a v set => ?_
  rw [attached, List.mem_cons, List.mem_cons, List.mem_singleton] at hx
  rcases hx with rfl | rfl | rfl
  · simp [root] at set
  · rw [rectangle] at set ⊢
    simp only [List.mem_cons, reduceCtorEq, Xml.Change.set.injEq, List.not_mem_nil, or_false,
      false_or] at set
    simp [set.1]
  · simp [group] at set

theorem groupPatches_twice : (nested.ensureIdentities identityAttribute).Reachable ∧
    FindsAgain identityAttribute (nested.patchedOnce groupPatches) (Datum.patches groupPatches)
      (nested.ensureIdentities identityAttribute) ∧
    (nested.patchedOnce groupPatches).handles = [0, 3, 1] ∧
    nested.patchedTwice groupPatches = nested.patchedOnce groupPatches ∧ nested.SameMarkup groupPatches := by
  have reachable : (nested.ensureIdentities identityAttribute).Reachable :=
    Reachable.ensureIdentities (.tree _ (by decide)) identityAttribute
  have read : Datum.patches groupPatches = groupWriters ++
    (some (Patch.mk "A" Patch.reorderName (.target ⟨some "C", none⟩))).toList := rfl
  have spares : ∀ p ∈ groupWriters, p.Spares identityAttribute := by
    unfold Patch.Spares
    decide +kernel
  have again : FindsAgain identityAttribute (nested.patchedOnce groupPatches) (Datum.patches groupPatches)
      (nested.ensureIdentities identityAttribute) := by decide +kernel
  have second : ((nested.patchedOnce groupPatches).patchAll identityAttribute groupPatches).1 =
      nested.patchedTwice groupPatches := rfl
  obtain ⟨_, _, twice, _⟩ := patchAll_twice reachable read (by decide) spares (by rintro p ⟨⟩; decide) rfl
    second again
  exact ⟨reachable, again, by decide +kernel, twice fun _ hx => groupPatches_settled hx⟩

end SvgForm.Document
