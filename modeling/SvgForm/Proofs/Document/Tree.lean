import Mathlib.Data.List.Nodup
import Mathlib.Data.List.Perm.Basic
import SvgForm.Document.Edit
import SvgForm.Document.Markup
import SvgForm.Proofs.Forest.Rows
/-! # The tree of a document

In every document that can be reached from a tree by edits and copies, the root stands alone, and every
handle occurs once: in the tree of the root or among the detached ones.
-/

namespace SvgForm.Document

structure WellFormed (d : Document) : Prop where
  rooted : ∃ children, d.outline = .node root children .nil
  covers : (d.outline.toList ++ d.detached.toList).Perm (List.range d.elements.size)

/-- The documents that come of a tree whose root is called `svg`, by edits and copies. -/
inductive Reachable : Document → Prop
  | tree {e : Xml.Element} (children : Forest Xml.Element) (named : Xml.localName e.name = "svg") :
    Reachable (ofTree (.node e children .nil))
  | edit {d d' : Document} {answer : Edit.Answer} (e : Edit) (before : Reachable d)
    (made : e.apply d = .ok (d', answer)) : Reachable d'
  | copy {d : Document} (before : Reachable d) : Reachable d.copy

theorem below_of_childrenOf? {d : Document} {h : Handle} {c : Forest Handle}
    (found : d.outline.childrenOf? h = some c) : d.below h = c := by
  rw [below, found]
  rfl

theorem childrenOf?_below {d : Document} {h : Handle} (hh : h ∈ d.handles) :
    d.outline.childrenOf? h = some (d.below h) := by
  obtain ⟨c, found⟩ := Forest.exists_childrenOf? hh
  rw [found, below_of_childrenOf? found]

theorem below_subset {d : Document} {h : Handle} (hh : h ∈ d.handles) :
    (d.below h).toList ⊆ d.handles :=
  Forest.childrenOf?_subset (childrenOf?_below hh)

theorem handle?_eq_ok_iff {d : Document} {n h : Handle} : d.handle? n = .ok h ↔ n = h ∧ h < d.elements.size := by
  rw [handle?]
  split
  case isTrue within =>
    refine ⟨fun same => ?_, fun same => congrArg Except.ok same.1⟩
    obtain rfl := Except.ok.inj same
    exact ⟨rfl, within⟩
  case isFalse beyond =>
    refine ⟨nofun, ?_⟩
    rintro ⟨rfl, within⟩
    exact absurd within beyond

theorem lt_size_of_handle? {d : Document} {n h : Handle} (found : d.handle? n = .ok h) : h < d.elements.size :=
  (handle?_eq_ok_iff.mp found).2

theorem eq_of_handle? {d : Document} {n h : Handle} (found : d.handle? n = .ok h) : n = h :=
  (handle?_eq_ok_iff.mp found).1

/-- A move changes the outline and nothing else. -/
theorem move?_eq_some_iff {d d' : Document} {side : Forest.Side} {h r : Handle} :
    d.move? side h r = some d' ↔
      h ≠ r ∧ ∃ outline, d.outline.move? side h r = some outline ∧ { d with outline } = d' := by
  rw [move?]
  split
  case isTrue same => simp [same]
  case isFalse other => rw [Option.map_eq_some_iff, and_iff_right other]

theorem isSome_move? {d : Document} {side : Forest.Side} {h r : Handle} :
    (d.move? side h r).isSome ↔ h ≠ r ∧ d.outline.Siblings h r := by
  rw [move?]
  split
  case isTrue same => simp [same]
  case isFalse other => rw [Option.isSome_map, Forest.isSome_move? other, and_iff_right other]

/-- A move that does not happen changes nothing. -/
theorem apply_move {d d' : Document} {side : Forest.Side} {n r : Handle} {answer : Edit.Answer}
    (made : (Edit.move side n r).apply d = .ok (d', answer)) :
    d' = d ∨ ∃ h r', d.move? side h r' = some d' := by
  simp only [Edit.apply, bind, Except.bind, pure, Except.pure] at made
  by_cases same : n = r
  · simp only [same, if_true, Except.ok.injEq, Prod.mk.injEq] at made
    exact .inl made.1.symm
  · simp only [same, if_false] at made
    cases found : d.handle? n with
    | error e => simp [found] at made
    | ok h =>
        simp only [found] at made
        by_cases orphan : (d.parent? h).isNone = true
        · simp only [orphan, if_true, Except.ok.injEq, Prod.mk.injEq] at made
          exact .inl made.1.symm
        · simp only [orphan, Bool.false_eq_true, if_false] at made
          cases found' : d.handle? r with
          | error e => simp [found'] at made
          | ok r' =>
              simp only [found'] at made
              cases moved : d.move? side h r' with
              | none =>
                  simp only [moved, Except.ok.injEq, Prod.mk.injEq] at made
                  exact .inl made.1.symm
              | some d'' =>
                  simp only [moved, Except.ok.injEq, Prod.mk.injEq] at made
                  exact .inr ⟨h, r', made.1 ▸ moved⟩

/-- What an edit can make of a document. -/
inductive Edited (d : Document) : Document → Prop
  | same : Edited d d
  | set {h : Handle} (hh : h < d.elements.size) (name value : String) : Edited d (d.set h name value)
  | remove {h : Handle} (hh : h < d.elements.size) (name : String) : Edited d (d.remove h name)
  | setText {h : Handle} (hh : h < d.elements.size) (text : String) : Edited d (d.setText h text)
  | appendChild {h : Handle} (hh : h < d.elements.size) (tag : String) (attributes : List (String × String))
    (text : String) : Edited d (d.appendChild h tag attributes text)
  | move {side : Forest.Side} {h r : Handle} {d' : Document} (moved : d.move? side h r = some d') : Edited d d'

theorem edited_of_apply {d d' : Document} {e : Edit} {answer : Edit.Answer} (made : e.apply d = .ok (d', answer)) :
    Edited d d' := by
  cases e with
  | move side n r =>
      rcases apply_move made with rfl | ⟨h, r', moved⟩
      · exact .same
      · exact .move moved
  | set n | remove n | setText n | appendChild n =>
      cases found : d.handle? n <;> simp [Edit.apply, found, bind, Except.bind, pure, Except.pure] at made
      obtain ⟨rfl, _⟩ := made
      constructor
      exact lt_size_of_handle? found

namespace WellFormed

variable {d : Document} {h x : Handle}

theorem nodup (hd : d.WellFormed) : (d.outline.toList ++ d.detached.toList).Nodup :=
  hd.covers.nodup_iff.mpr List.nodup_range

theorem handles_nodup (hd : d.WellFormed) : d.handles.Nodup :=
  (List.nodup_append'.mp hd.nodup).1

theorem not_mem_detached (hd : d.WellFormed) (hh : h ∈ d.handles) : h ∉ d.detached.toList :=
  (List.nodup_append'.mp hd.nodup).2.2 hh

theorem lt_size (hd : d.WellFormed) (hh : h ∈ d.handles) : h < d.elements.size :=
  List.mem_range.mp (hd.covers.mem_iff.mp (List.mem_append_left _ hh))

theorem mem_or_mem (hd : d.WellFormed) (hh : h < d.elements.size) :
    h ∈ d.outline.toList ∨ h ∈ d.detached.toList :=
  List.mem_append.mp (hd.covers.mem_iff.mpr (List.mem_range.mpr hh))

/-! ## Below and above -/

theorem mem_below_iff (hd : d.WellFormed) (hh : h ∈ d.handles) :
    x ∈ (d.below h).toList ↔ d.outline.Below h x :=
  (Forest.below_iff_mem hd.handles_nodup (childrenOf?_below hh)).symm

theorem mem_ancestors_iff (hd : d.WellFormed) : x ∈ d.ancestors h ↔ d.outline.Below x h := by
  cases path : d.outline.pathTo? h [] with
  | none =>
      have absent := Forest.pathTo?_eq_none.mp path
      simp only [ancestors, path, Option.getD_none, List.not_mem_nil, false_iff]
      exact fun below => absent below.mem_right
  | some path' =>
      have := Forest.mem_pathTo? (a := x) hd.handles_nodup path
      simpa [ancestors, path] using this

theorem not_below_self (hd : d.WellFormed) : ¬ d.outline.Below h h := by
  intro below
  have hh : h ∈ d.handles := below.mem_left
  have inside := (hd.mem_below_iff hh).mpr below
  have := (Forest.childrenOf?_sublist (childrenOf?_below hh)).nodup hd.handles_nodup
  exact (List.nodup_cons.mp this).1 inside

/-! ## Edits keep documents well-formed -/

theorem ofTree (e : Xml.Element) (children : Forest Xml.Element) :
    (ofTree (.node e children .nil)).WellFormed where
  rooted := ⟨_, rfl⟩
  covers := by
    simp only [Document.ofTree, Forest.toList_number, List.size_toArray]
    rw [← List.range_eq_range']
    simp [Forest.toList]

theorem mapElement (hd : d.WellFormed) (h : Handle) (f : Xml.Element → Xml.Element) :
    (d.mapElement h f).WellFormed where
  rooted := hd.rooted
  covers := by simpa [Document.mapElement] using hd.covers

theorem set (hd : d.WellFormed) (h : Handle) (name value : String) : (d.set h name value).WellFormed :=
  hd.mapElement h _

theorem remove (hd : d.WellFormed) (h : Handle) (name : String) : (d.remove h name).WellFormed :=
  hd.mapElement h _

theorem setText (hd : d.WellFormed) (h : Handle) (text : String) : (d.setText h text).WellFormed where
  rooted := by
    obtain ⟨children, rooted⟩ := hd.rooted
    simp [Document.setText, rooted, Forest.mapChildren]
  covers := by
    have distinct := List.nodup_append'.mp hd.nodup
    have cut : ((d.setText h text).outline.toList ++ (d.setText h text).detached.toList).Perm
        (d.outline.toList ++ d.detached.toList) := by
      simp only [Document.setText, Forest.toList_append]
      by_cases attached : h ∈ d.outline.toList
      · have detached : h ∉ d.detached.toList := hd.not_mem_detached attached
        have := Forest.perm_mapChildren (g := fun _ => .nil) distinct.1 (childrenOf?_below attached)
        rw [Forest.mapChildren_of_not_mem detached]
        have joined := Forest.perm_append_between this d.detached.toList
        simpa [Forest.toList] using joined
      · rw [Forest.mapChildren_of_not_mem attached]
        refine List.Perm.append_left _ ?_
        have missing := Forest.childrenOf?_eq_none.mpr attached
        cases found : d.detached.childrenOf? h with
        | none =>
            have := Forest.childrenOf?_eq_none.mp found
            simp [below, missing, found, Forest.mapChildren_of_not_mem this, Forest.toList]
        | some c =>
            have := Forest.perm_mapChildren (g := fun _ => .nil) distinct.2.1 found
            simpa [below, missing, found, Forest.toList] using this
    simpa [Document.setText] using cut.trans hd.covers

theorem appendElement (hd : d.WellFormed) (hh : h < d.elements.size) (e : Xml.Element) :
    (d.appendElement h e).WellFormed where
  rooted := by
    obtain ⟨children, rooted⟩ := hd.rooted
    simp [Document.appendElement, rooted, Forest.mapChildren]
  covers := by
    have distinct := List.nodup_append'.mp hd.nodup
    have more : ((d.appendElement h e).outline.toList ++ (d.appendElement h e).detached.toList).Perm
        (d.outline.toList ++ d.detached.toList ++ [d.elements.size]) := by
      simp only [Document.appendElement]
      rcases hd.mem_or_mem hh with attached | detached
      · rw [Forest.mapChildren_of_not_mem (hd.not_mem_detached attached)]
        refine ((Forest.perm_mapChildren_append distinct.1 attached _).append_right _).trans ?_
        rw [List.append_assoc, List.append_assoc]
        exact List.perm_append_comm.append_left _
      · rw [Forest.mapChildren_of_not_mem fun mem => distinct.2.2 mem detached, List.append_assoc]
        exact (Forest.perm_mapChildren_append distinct.2.1 detached _).append_left _
    have size : (d.appendElement h e).elements.size = d.elements.size + 1 := Array.size_push ..
    rw [size, List.range_succ]
    exact more.trans (hd.covers.append_right _)

theorem appendChild (hd : d.WellFormed) (hh : h < d.elements.size) (tag : String)
    (attributes : List (String × String)) (text : String) :
    (d.appendChild h tag attributes text).WellFormed :=
  hd.appendElement hh _

theorem move? {d' : Document} {side : Forest.Side} {r : Handle} (hd : d.WellFormed)
    (made : d.move? side h r = some d') : d'.WellFormed := by
  obtain ⟨-, outline, moved, rfl⟩ := move?_eq_some_iff.mp made
  refine ⟨?_, ((Forest.perm_move? moved).append_right _).trans hd.covers⟩
  obtain ⟨children, rooted⟩ := hd.rooted
  rw [rooted, Forest.move?] at moved
  split at moved
  case h_1 => exact ⟨_, (Option.some.inj moved).symm⟩
  case h_2 => simp [Forest.move?] at moved

theorem copy (hd : d.WellFormed) : d.copy.WellFormed where
  rooted := hd.rooted
  covers := by
    have attached : d.handles.Perm
        ((List.range d.elements.size).filter (· ∈ d.handles)) := by
      rw [List.perm_ext_iff_of_nodup hd.handles_nodup (List.nodup_range.filter _)]
      intro x
      simp only [List.mem_filter, List.mem_range, decide_eq_true_eq]
      exact ⟨fun hx => ⟨hd.lt_size hx, hx⟩, And.right⟩
    have split := List.filter_append_perm (fun x => decide (x ∈ d.handles)) (List.range d.elements.size)
    simp only [Document.copy, Forest.toList_ofRoots, Array.size_mapIdx]
    refine (attached.append_right _).trans (List.Perm.trans ?_ split)
    simp

theorem edit {d' : Document} {answer : Edit.Answer} (hd : d.WellFormed) {e : Edit}
    (made : e.apply d = .ok (d', answer)) : d'.WellFormed := by
  cases edited_of_apply made with
  | same => exact hd
  | set => exact hd.set ..
  | remove => exact hd.remove ..
  | setText => exact hd.setText ..
  | appendChild hh => exact hd.appendChild hh ..
  | move moved => exact hd.move? moved

end WellFormed

theorem Reachable.wellFormed {d : Document} (hd : d.Reachable) : d.WellFormed := by
  induction hd with
  | tree children _ => exact .ofTree _ children
  | edit e _ made ih => exact ih.edit made
  | copy _ ih => exact ih.copy

theorem Reachable.set {d : Document} {h : Handle} (hd : d.Reachable) (hh : h < d.elements.size)
    (name value : String) : (d.set h name value).Reachable := by
  have found : d.handle? h = .ok h := by simp [handle?, hh]
  refine .edit (.set h name value) hd (?_ : _ = Except.ok (d.set h name value, .done))
  rw [Edit.apply, found]
  rfl

/-! ## Documents that are read -/

theorem resolveAll?_single {declarations : Xml.Declarations} {b : Xml.Bindings} {e : Xml.Draft}
    {children : Forest Xml.Draft} {f : Forest Xml.Element}
    (h : Xml.resolveAll? declarations b (.node e children .nil) = some f) :
    ∃ e' children', f = .node e' children' .nil := by
  simp only [Xml.resolveAll?, bind, Option.bind_eq_some_iff, pure, Option.some.injEq] at h
  obtain ⟨resolved, _, inner, _, _, rfl, rfl⟩ := h
  exact ⟨_, _, rfl⟩

theorem root?_single {s : List Char} {f : Forest Xml.Element} (h : Xml.root? s = some f) :
    ∃ e children, f = .node e children .nil := by
  simp only [Xml.root?, bind, Option.bind_eq_some_iff] at h
  obtain ⟨_, _, _, _, _, _, _, _, _, _, _, _, _, _, content, _, rest, _, h⟩ := h
  split at h
  case isTrue => simp at h
  case isFalse =>
    split at h
    case h_1 single =>
      rw [single] at h
      exact resolveAll?_single h
    case h_2 => simp at h

theorem parse_reachable {markup : String} {d : Document} (h : parse markup = .ok d) : d.Reachable := by
  simp only [parse] at h
  split at h
  case isTrue => simp at h
  case isFalse =>
    split at h
    case h_1 => simp at h
    case h_2 tree found =>
      split at h
      case isTrue named =>
        obtain rfl := Except.ok.inj h
        obtain ⟨e, children, rfl⟩ := root?_single found
        exact .tree children named
      case isFalse => simp at h

/-! ## What structural edits do -/

section

variable {d : Document} {h x y : Handle}

/-- All trees, that of the root first. -/
def trees (d : Document) : Forest Handle :=
  d.outline.append d.detached

theorem below_eq (d : Document) (h : Handle) : d.below h = (d.trees.childrenOf? h).getD .nil := by
  rw [below, trees, Forest.childrenOf?_append]

theorem WellFormed.nodup_trees (hd : d.WellFormed) : d.trees.toList.Nodup := by
  rw [trees, Forest.toList_append]
  exact hd.nodup

theorem WellFormed.childrenOf?_trees (hd : d.WellFormed) (hh : h < d.elements.size) :
    d.trees.childrenOf? h = some (d.below h) := by
  have mem : h ∈ d.trees.toList := by
    rw [trees, Forest.toList_append]
    exact List.mem_append.mpr (hd.mem_or_mem hh)
  obtain ⟨row, found⟩ := Forest.exists_childrenOf? mem
  rw [below_eq, found, Option.getD_some]

theorem WellFormed.lt_size_of_mem_below (hd : d.WellFormed) (hh : h < d.elements.size)
    (mem : x ∈ (d.below h).toList) : x < d.elements.size := by
  have listed := Forest.childrenOf?_subset (hd.childrenOf?_trees hh) mem
  rw [trees, Forest.toList_append, hd.covers.mem_iff] at listed
  exact List.mem_range.mp listed

theorem below_setText_eq (hd : d.WellFormed) (hh : h < d.elements.size) (text : String) (x : Handle) :
    (d.setText h text).below x = if x = h then .nil else (d.below x).mapChildren h fun _ => .nil := by
  have trees : (d.setText h text).trees = (d.trees.mapChildren h fun _ => .nil).append (d.below h) := by
    rw [Document.trees, Document.trees, Forest.mapChildren_append, Forest.append_assoc]
    rfl
  rw [below_eq, trees, Forest.childrenOf?_cut hd.nodup_trees (hd.childrenOf?_trees hh), below_eq]
  split
  case isTrue => rfl
  case isFalse => cases d.trees.childrenOf? x <;> rfl

theorem trees_appendElement (d : Document) (h : Handle) (e : Xml.Element) :
    (d.appendElement h e).trees =
      d.trees.mapChildren h fun row => row.append (.ofRoots [d.elements.size]) := by
  rw [trees, trees, Forest.mapChildren_append]
  rfl

theorem size_appendElement (d : Document) (h : Handle) (e : Xml.Element) :
    (d.appendElement h e).elements.size = d.elements.size + 1 :=
  Array.size_push ..

theorem childrenOf?_trees_appendElement (hd : d.WellFormed) (hh : h < d.elements.size) (e : Xml.Element) :
    (d.appendElement h e).trees.childrenOf? h =
      some ((d.below h).append (.ofRoots [d.elements.size])) := by
  rw [trees_appendElement, Forest.childrenOf?_mapChildren_self, hd.childrenOf?_trees hh, Option.map_some]

theorem below_appendElement_new (hd : d.WellFormed) (hh : h < d.elements.size) (e : Xml.Element) :
    (d.appendElement h e).below d.elements.size = .nil := by
  have row := childrenOf?_trees_appendElement hd hh e
  have absent : (d.below h).childrenOf? d.elements.size = none := by
    rw [Forest.childrenOf?_eq_none]
    exact fun mem => absurd (hd.lt_size_of_mem_below hh mem) (Nat.lt_irrefl _)
  rw [below_eq, Forest.childrenOf?_inside (hd.appendElement hh e).nodup_trees row (by simp),
    Forest.childrenOf?_append, absent, Option.none_or, Forest.ofRoots, Forest.childrenOf?, if_pos rfl,
    Option.getD_some]

/-- Only what is below the element that got a child changes, and the row of that element itself. -/
theorem below_appendElement_eq (hd : d.WellFormed) (hh : h < d.elements.size) (e : Xml.Element)
    (x : Handle) : (d.appendElement h e).below x =
      if x = d.elements.size then .nil
      else if x = h then (d.below h).append (.ofRoots [d.elements.size])
      else (d.below x).mapChildren h fun row => row.append (.ofRoots [d.elements.size]) := by
  split
  case isTrue new =>
      subst new
      exact below_appendElement_new hd hh e
  case isFalse old =>
      split
      case isTrue here =>
          subst here
          rw [below_eq, childrenOf?_trees_appendElement hd hh, Option.getD_some]
      case isFalse other =>
          rw [below_eq, trees_appendElement,
            Forest.childrenOf?_grown hd.nodup_trees other (by simpa using old), below_eq]
          cases d.trees.childrenOf? x <;> rfl

theorem below_eq_nil (hd : d.WellFormed) (hx : d.elements.size ≤ x) : d.below x = .nil := by
  have absent : x ∉ d.trees.toList := by
    rw [trees, Forest.toList_append, hd.covers.mem_iff, List.mem_range]
    omega
  rw [below_eq, Forest.childrenOf?_eq_none.mpr absent, Option.getD_none]

theorem mem_handles_setText (hd : d.WellFormed) (hh : h ∈ d.handles) (text : String) :
    x ∈ (d.setText h text).handles ↔ x ∈ d.handles ∧ ¬ d.outline.Below h x := by
  have cut := Forest.perm_mapChildren (g := fun _ => .nil) hd.handles_nodup (childrenOf?_below hh)
  simp only [Forest.toList, List.append_nil] at cut
  have apart := (List.nodup_append'.mp (cut.nodup_iff.mpr hd.handles_nodup)).2.2
  rw [← hd.mem_below_iff hh]
  constructor
  · intro mem
    exact ⟨cut.mem_iff.mp (List.mem_append_left _ mem), fun below => apart mem below⟩
  · rintro ⟨mem, outside⟩
    exact (List.mem_append.mp (cut.mem_iff.mpr mem)).resolve_right outside

theorem below_setText_self (hd : d.WellFormed) (hh : h < d.elements.size) (text : String) :
    (d.setText h text).below h = .nil := by
  rw [below_setText_eq hd hh, if_pos rfl]

/-- What is below an element stays, unless the changed one is there. -/
theorem below_setText (hd : d.WellFormed) (hh : h ∈ d.handles) (hx : x ∈ d.handles) (other : x ≠ h)
    (above : ¬ d.outline.Below x h) (text : String) : (d.setText h text).below x = d.below x := by
  rw [below_setText_eq hd (hd.lt_size hh), if_neg other, Forest.mapChildren_of_not_mem]
  rwa [hd.mem_below_iff hx]

theorem Below.of_setText {text : String} (h' : (d.setText h text).outline.Below x y) :
    d.outline.Below x y :=
  h'.of_mapChildren (by simp [Forest.toList]) (fun _ => False.elim)

theorem mem_handles_appendElement (hd : d.WellFormed) (hh : h ∈ d.handles) (e : Xml.Element) :
    x ∈ (d.appendElement h e).handles ↔ x ∈ d.handles ∨ x = d.elements.size := by
  have grown := Forest.perm_mapChildren_append hd.handles_nodup hh [d.elements.size]
  have same := grown.mem_iff (a := x)
  rw [List.mem_append, List.mem_singleton] at same
  exact same

theorem below_appendElement (hd : d.WellFormed) (hh : h ∈ d.handles) (hx : x ∈ d.handles)
    (other : x ≠ h) (above : ¬ d.outline.Below x h) (e : Xml.Element) :
    (d.appendElement h e).below x = d.below x := by
  rw [below_appendElement_eq hd (hd.lt_size hh), if_neg (Nat.ne_of_lt (hd.lt_size hx)), if_neg other,
    Forest.mapChildren_of_not_mem]
  rwa [hd.mem_below_iff hx]

/-- Only the new element is below anything it was not below before. -/
theorem Below.of_appendElement {e : Xml.Element} (old : y ≠ d.elements.size)
    (h' : (d.appendElement h e).outline.Below x y) : d.outline.Below x y := by
  refine Forest.Below.of_mapChildren (fun c mem => ?_) (fun c below => ?_) h'
  · rw [Forest.toList_append, Forest.toList_ofRoots, List.mem_append, List.mem_singleton] at mem
    exact mem.resolve_right old
  · exact (Forest.below_append.mp below).resolve_right (Forest.not_below_ofRoots _)

end

end SvgForm.Document
