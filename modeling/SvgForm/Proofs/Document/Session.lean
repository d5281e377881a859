import SvgForm.Proofs.Document.Tree
import SvgForm.Proofs.Forest.Parents
/-! # Sessions

What a session remembers of the parents is always what it would find anew, and so every call has the answer
that it has without remembering anything. The elements of a session make up a tree.
-/

namespace SvgForm

variable {d : Document} {s : Session} {h r p : Handle} {side : Forest.Side}

/-! ## Looking up parents anew -/

namespace Document

/-- A call that looks up parents anew. -/
def call (d : Document) : Call → Except CallError Answer × Document
  | .edit e =>
    match e.apply d with
    | .ok (edited, a) => (.ok (.edited a), edited)
    | .error e => (.error (.handle e), d)
  | .query q => (d.answer q, d)
  | .parent n => (d.about n fun h => .handle (d.parent? h), d)
  | .ancestors n => (d.about n fun h => .handles (d.ancestors h), d)
  | .isContent n => (d.about n fun h => .truth (d.isContent h), d)

theorem climbs_ancestors (hd : d.WellFormed) (h : Handle) :
    Forest.Climbs d.outline.parent? h (d.ancestors h) :=
  Forest.climbs_pathTo? hd.handles_nodup h

theorem parent?_eq (hd : d.WellFormed) (h : Handle) : d.outline.parent? h = d.parent? h :=
  (climbs_ancestors hd h).head?.symm

theorem length_ancestors_le (d : Document) (h : Handle) :
    (d.ancestors h).length ≤ d.outline.parents.length := by
  rw [ancestors]
  cases found : d.outline.pathTo? h [] with
  | none => exact Nat.zero_le _
  | some path =>
      have le := Forest.length_pathTo?_le found
      rwa [List.length_nil, Nat.zero_add] at le

/-- A move in the row of the parent is the move that looks for that row. -/
theorem moveAmong?_eq (side : Forest.Side) (hd : d.WellFormed) (other : h ≠ r) (above : d.outline.parent? h = some p)
    (above' : d.outline.parent? r = some p) :
    ∃ d', d.moveAmong? side p h r = some d' ∧ d.move? side h r = some d' := by
  have distinct := hd.handles_nodup
  obtain ⟨row, found, hh⟩ := (Forest.parent?_eq_some_iff distinct).mp above
  obtain ⟨row', found', hr⟩ := (Forest.parent?_eq_some_iff distinct).mp above'
  obtain rfl := Option.some.inj (found.symm.trans found')
  have attached : p ∈ d.handles := Forest.parent?_mem above
  have moves : (row.moveRoot? side h r).isSome = true := (Forest.isSome_moveRoot? other).mpr ⟨hh, hr⟩
  cases moved : row.moveRoot? side h r with
  | none =>
      rw [moved] at moves
      cases moves
  | some changed =>
      refine ⟨{ d with outline := d.outline.mapChildren p fun _ => changed }, ?_, ?_⟩
      · simp only [moveAmong?, below_of_childrenOf? found, moved, Option.map_some,
          Forest.mapChildren_of_not_mem (hd.not_mem_detached attached)]
      · exact move?_eq_some_iff.mpr ⟨other, _, Forest.move?_eq_mapChildren distinct found other moved, rfl⟩

theorem move?_eq_none (hd : d.WellFormed) (above : d.outline.parent? h = some p)
    (apart : d.outline.parent? r ≠ some p) : d.move? side h r = none := by
  rw [← Option.not_isSome_iff_eq_none, isSome_move?, Forest.siblings_iff hd.handles_nodup]
  rintro ⟨-, q, first, second⟩
  rw [above] at first
  exact apart (first ▸ second)

/-- Whether an element hangs together with the root. -/
def Attached (d : Document) : Handle → Prop :=
  Relation.ReflTransGen (fun p c => c ∈ d.children p) root

theorem WellFormed.roots_outline (hd : d.WellFormed) : d.outline.roots = [root] := by
  obtain ⟨children, rooted⟩ := hd.rooted
  rw [rooted]
  rfl

theorem mem_children_iff (hd : d.WellFormed) (hp : p ∈ d.handles) :
    h ∈ d.children p ↔ d.outline.parent? h = some p := by
  rw [Forest.parent?_eq_some_iff hd.handles_nodup, children, childrenOf?_below hp]
  simp

theorem documentOrder_handles (hd : d.WellFormed) :
    Forest.DocumentOrder d.children [root] d.handles := by
  rw [← hd.roots_outline]
  apply Forest.documentOrder_of_rows
  intro h row tree
  obtain ⟨_, _, found, rfl, rfl⟩ := (Forest.anyTree_iff hd.handles_nodup).mp tree
  rw [children, below_of_childrenOf? found]

theorem attached_iff (hd : d.WellFormed) : d.Attached h ↔ h ∈ d.handles := by
  constructor
  · intro attached
    induction attached with
    | refl =>
        apply Forest.roots_subset
        rw [hd.roots_outline]
        exact List.mem_singleton_self _
    | tail _ child ih => exact below_subset ih (Forest.roots_subset child)
  · intro listed
    obtain ⟨r, start, path⟩ := (documentOrder_handles hd).reaches listed
    rw [List.mem_singleton] at start
    rwa [start] at path

/-- Only edits that change more than attributes change the tree. -/
theorem outline_of_apply {e : Edit} {d' : Document} {a : Edit.Answer} (keeps : e.reshapes = false)
    (made : e.apply d = .ok (d', a)) : d'.outline = d.outline := by
  cases e with
  | set n name value | remove n name =>
      simp only [Edit.apply, bind, Except.bind, pure, Except.pure] at made
      cases found : d.handle? n with
      | error e =>
          rw [found] at made
          cases made
      | ok h =>
          rw [found] at made
          cases made
          rfl
  | setText | appendChild | move => cases keeps

end Document

/-! ## What is remembered -/

namespace Session

structure Sound (s : Session) : Prop where
  wellFormed : s.document.WellFormed
  current : ∀ parents, s.parents = some parents → parents = s.document.outline.parents

theorem sound_start (hd : d.WellFormed) : Sound { document := d } :=
  ⟨hd, fun _ remembered => by cases remembered⟩

namespace Sound

theorem recalled (hs : s.Sound) : s.recalled = s.document.outline.parents := by
  rw [Session.recalled]
  cases remembered : s.parents with
  | none => rfl
  | some parents => exact hs.current parents remembered

theorem remember (hs : s.Sound) : s.remember.Sound where
  wellFormed := hs.wellFormed
  current := by
    intro parents remembered
    rw [← Option.some.inj remembered]
    exact hs.recalled

theorem parent? (hs : s.Sound) (h : Handle) : s.parent? h = s.document.outline.parent? h := by
  rw [Session.parent?, hs.recalled, Forest.parent?]

theorem climbs (hs : s.Sound) (h : Handle) : Forest.Climbs s.parent? h (s.document.ancestors h) := by
  have same : s.parent? = s.document.outline.parent? := funext hs.parent?
  rw [same]
  exact Document.climbs_ancestors hs.wellFormed h

theorem ancestors (hs : s.Sound) (h : Handle) : s.ancestors h = s.document.ancestors h := by
  apply Forest.climb_eq (hs.climbs h)
  rw [hs.recalled]
  exact Document.length_ancestors_le s.document h

end Sound

/-- A call has the answer and does to the document what it does without remembering, and what is remembered
afterwards is so. -/
structure Agrees (made : Except CallError Answer × Session) (direct : Except CallError Answer × Document) :
    Prop where
  answer : made.1 = direct.1
  document : made.2.document = direct.2
  sound : made.2.Sound

theorem agrees_move (hs : s.Sound) (side : Forest.Side) (n m : Handle) :
    Agrees (s.move side n m) (s.document.call (.edit (.move side n m))) := by
  simp only [move, Document.call, Edit.apply, bind, Except.bind, pure, Except.pure]
  by_cases same : n = m
  · simp only [same, if_true]
    exact ⟨rfl, rfl, hs⟩
  · simp only [same, if_false]
    cases found : s.document.handle? n with
    | error e => exact ⟨rfl, rfl, hs.remember⟩
    | ok h =>
        have above : s.document.outline.parent? h = s.document.parent? h :=
          Document.parent?_eq hs.wellFormed h
        simp only [hs.parent?]
        rw [← above]
        cases up : s.document.outline.parent? h with
        | none => exact ⟨rfl, rfl, hs.remember⟩
        | some p =>
            simp only [Option.isNone_some, Bool.false_eq_true, if_false]
            cases found' : s.document.handle? m with
            | error e => exact ⟨rfl, rfl, hs.remember⟩
            | ok r =>
              -- What keeps the other tree whole is that both elements stand under one parent.
              by_cases together : s.document.outline.parent? r = some p
              · have other : h ≠ r := by
                  rintro rfl
                  exact same ((Document.eq_of_handle? found).trans (Document.eq_of_handle? found').symm)
                obtain ⟨d', among, moved⟩ :=
                  Document.moveAmong?_eq side hs.wellFormed other up together
                simp only [together, ne_eq, not_true_eq_false, if_false, among, moved]
                exact ⟨rfl, rfl, sound_start (hs.wellFormed.move? moved)⟩
              · simp only [together, ne_eq, not_false_eq_true, if_true,
                  Document.move?_eq_none hs.wellFormed up together]
                exact ⟨rfl, rfl, hs.remember⟩

theorem agrees_change (hs : s.Sound) (e : Edit) : Agrees (s.change e) (s.document.call (.edit e)) := by
  simp only [change, Document.call]
  cases made : e.apply s.document with
  | error e => exact ⟨rfl, rfl, hs⟩
  | ok result =>
      refine ⟨rfl, rfl, hs.wellFormed.edit made, ?_⟩
      intro parents remembered
      cases reshapes : e.reshapes with
      | true => simp [reshapes] at remembered
      | false =>
          simp only [reshapes, Bool.false_eq_true, if_false] at remembered
          rw [hs.current parents remembered, Document.outline_of_apply reshapes made]

theorem agrees_edit (hs : s.Sound) (e : Edit) : Agrees (s.edit e) (s.document.call (.edit e)) := by
  cases e with
  | move side n m => exact agrees_move hs side n m
  | set | remove | setText | appendChild => exact agrees_change hs _

theorem agrees_isContent (hs : s.Sound) (n : Handle) :
    Agrees (s.isContent n) (s.document.call (.isContent n)) := by
  simp only [isContent, Document.call, Document.about, Document.isContent]
  cases found : s.document.handle? n with
  | error e => exact ⟨rfl, rfl, hs⟩
  | ok h =>
      by_cases excluded : s.document.tag h ∈ Document.nonContentTags
      · simp only [excluded, if_true]
        refine ⟨?_, rfl, hs⟩
        simp [excluded]
      · simp only [excluded, if_false]
        refine ⟨?_, rfl, hs.remember⟩
        simp [excluded, hs.ancestors]

theorem agrees_call (hs : s.Sound) (c : Call) : Agrees (s.call c) (s.document.call c) := by
  cases c with
  | edit e => exact agrees_edit hs e
  | query q => exact ⟨rfl, rfl, hs⟩
  | parent n =>
      refine ⟨?_, rfl, hs.remember⟩
      have same : s.parent? = s.document.parent? := by
        funext h
        rw [hs.parent?, Document.parent?_eq hs.wellFormed]
      simp only [call, aboutParents, Document.call, same]
  | ancestors n =>
      refine ⟨?_, rfl, hs.remember⟩
      simp only [call, aboutParents, Document.call, hs.ancestors]
  | isContent n => exact agrees_isContent hs n

/-! ## Runs -/

theorem sound_run (hs : s.Sound) (calls : List Call) : (s.run calls).2.Sound := by
  induction calls generalizing s with
  | nil => exact hs
  | cons c calls ih => exact ih (agrees_call hs c).sound

theorem document_call {c : Call} (asks : c.isEdit = false) : (d.call c).2 = d := by
  cases c with
  | edit e => cases asks
  | query | parent | ancestors | isContent => rfl

/-- Calls that change nothing can be left out. -/
theorem document_run_filter {t : Session} (hs : s.Sound) (ht : t.Sound) (same : s.document = t.document)
    (calls : List Call) :
    (s.run calls).2.document = (t.run (calls.filter Call.isEdit)).2.document := by
  induction calls generalizing s t with
  | nil => exact same
  | cons c calls ih =>
      have first := agrees_call hs c
      cases edits : c.isEdit with
      | true =>
          have second := agrees_call ht c
          rw [List.filter_cons_of_pos edits]
          apply ih first.sound second.sound
          rw [first.document, second.document, same]
      | false =>
          rw [List.filter_cons_of_neg (by simp [edits])]
          apply ih first.sound ht
          rw [first.document, document_call edits, same]

/-! ## The tree of a session -/

/-- What a session answers makes up a tree: `handles` lists the elements that hang together with the root in
document order, children and parents belong together, and the way up from an element ends at the root. -/
structure IsTree (s : Session) : Prop where
  ordered : Forest.DocumentOrder s.document.children [Document.root] s.document.handles
  nodup : s.document.handles.Nodup
  listed : ∀ h, h ∈ s.document.handles ↔ s.document.Attached h
  child_iff : ∀ p, s.document.Attached p → ∀ c, c ∈ s.document.children p ↔ s.parent? c = some p
  orphan : ∀ h, h = Document.root ∨ ¬ s.document.Attached h → s.parent? h = none
  climbs : ∀ h, s.document.Attached h → h ≠ Document.root →
    Forest.Climbs s.parent? h (s.ancestors h) ∧ (s.ancestors h).getLast? = some Document.root

theorem Sound.isTree (hs : s.Sound) : s.IsTree where
  ordered := Document.documentOrder_handles hs.wellFormed
  nodup := hs.wellFormed.handles_nodup
  listed := fun h => (Document.attached_iff hs.wellFormed).symm
  child_iff := by
    intro p attached c
    rw [Document.attached_iff hs.wellFormed] at attached
    rw [hs.parent?, Document.mem_children_iff hs.wellFormed attached]
  orphan := by
    intro h lone
    rw [hs.parent?]
    rcases lone with rfl | detached
    · apply Forest.parent?_of_mem_roots hs.wellFormed.handles_nodup
      rw [hs.wellFormed.roots_outline]
      exact List.mem_singleton_self _
    · apply Forest.parent?_eq_none_of_not_mem
      rwa [Document.attached_iff hs.wellFormed] at detached
  climbs := by
    intro h attached other
    rw [Document.attached_iff hs.wellFormed] at attached
    have way := hs.climbs h
    rw [hs.ancestors]
    refine ⟨way, ?_⟩
    obtain ⟨r, root, last⟩ := (Document.climbs_ancestors hs.wellFormed h).getLast?_mem_roots attached
    rw [hs.wellFormed.roots_outline, List.mem_singleton] at root
    subst root
    cases up : s.document.ancestors h with
    | nil =>
        rw [up, List.getLast?_singleton] at last
        exact absurd (Option.some.inj last) other
    | cons p rest => rwa [up, List.getLast?_cons_cons] at last

/-- However calls are mixed, a session answers as a tree does, and whatever it is asked next has the answer it
has where nothing was asked in between. -/
theorem run_isTree (hd : d.Reachable) (calls : List Call) :
    (run { document := d } calls).2.IsTree ∧
      ∀ c, ((run { document := d } calls).2.call c).1 =
        ((run { document := d } (calls.filter Call.isEdit)).2.call c).1 := by
  have start := sound_start hd.wellFormed
  have mixed := sound_run start calls
  have plain := sound_run start (calls.filter Call.isEdit)
  refine ⟨mixed.isTree, fun c => ?_⟩
  rw [(agrees_call mixed c).answer, (agrees_call plain c).answer,
    document_run_filter start start rfl calls]

/-- A group of two texts, and a rectangle beside it. -/
def group : Document :=
  .ofTree (.node { name := "svg" } (.node { name := "g" } (.ofRoots [{ name := "text" }, { name := "text" }])
    (.ofRoots [{ name := "rect" }])) .nil)

/-- Takes the texts out of the group, puts a line below the one, and moves the rectangle before the group. -/
def regroup : List Call :=
  [.parent 2, .edit (.setText 1 ""), .parent 2, .edit (.appendChild 2 "tspan" [] ""), .ancestors 5,
    .edit (.move .before 4 1), .isContent 4]

theorem regroup_isTree : group.Reachable ∧
    (run { document := group } regroup).2.document.handles = [0, 4, 1] ∧
    (run { document := group } regroup).2.document.children 2 = [5] ∧
    (run { document := group } regroup).2.IsTree ∧
    ∀ c, ((run { document := group } regroup).2.call c).1 =
      ((run { document := group } (regroup.filter Call.isEdit)).2.call c).1 := by
  have reachable : group.Reachable := .tree _ (by decide)
  exact ⟨reachable, by decide, by decide, run_isTree reachable regroup⟩

end Session

end SvgForm
