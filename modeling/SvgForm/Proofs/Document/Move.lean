import SvgForm.Proofs.Document.Session
/-! # Places among siblings

An element can be put next to another just if both are children of one element that hangs together with the
root. That changes the row of these children and nothing else, and done again it changes nothing. Whatever a
session remembers of parents makes no difference.
-/

namespace SvgForm

namespace Forest

variable {α : Type} {side : Side} {a b p x : α} {below c f g rest row row' : Forest α}

/-- Whether the second row is the first with `a` put next to `b`. -/
def Inserted (side : Side) (a b : α) (row row' : List α) : Prop :=
  ∃ before after, row = before ++ b :: after ∧
    row' = match side with
      | .before => before ++ a :: b :: after
      | .after => before ++ b :: a :: after

theorem Inserted.cons {l l' : List α} (put : Inserted side a b l l') (x : α) :
    Inserted side a b (x :: l) (x :: l') := by
  obtain ⟨before, after, rfl, rfl⟩ := put
  refine ⟨x :: before, after, rfl, ?_⟩
  cases side with
  | before | after => rfl

variable [DecidableEq α]

theorem erase_roots (taken : takeRoot? a f = some (below, rest)) : f.roots.erase a = rest.roots := by
  induction f generalizing rest with
  | nil => simp [takeRoot?] at taken
  | node b children siblings _ ih =>
      rw [takeRoot?] at taken
      split at taken
      case isTrue same =>
        obtain ⟨rfl, rfl⟩ := Prod.mk.inj (Option.some.inj taken)
        simp [roots, same]
      case isFalse other =>
        obtain ⟨⟨below, others⟩, found, made⟩ := Option.map_eq_some_iff.mp taken
        obtain ⟨rfl, rfl⟩ := Prod.mk.inj made
        simp [roots, other, ih found]

theorem inserted_insertRoot? (put : insertRoot? side a below b f = some g) : Inserted side a b f.roots g.roots := by
  induction f generalizing g with
  | nil => simp [insertRoot?] at put
  | node d children siblings _ ih =>
      simp only [insertRoot?] at put
      split at put
      case isTrue same =>
        refine ⟨[], siblings.roots, by rw [roots, same]; rfl, ?_⟩
        cases side with
        | before | after =>
            obtain rfl := Option.some.inj put
            simp [roots, same]
      case isFalse =>
        obtain ⟨others, found, rfl⟩ := Option.map_eq_some_iff.mp put
        exact (ih found).cons d

/-- A tree that is moved in a row stands next to the other one. -/
theorem inserted_moveRoot? (moved : moveRoot? side a b f = some g) :
    Inserted side a b (f.roots.erase a) g.roots := by
  obtain ⟨⟨below, rest⟩, taken, put⟩ := Option.bind_eq_some_iff.mp moved
  rw [erase_roots taken]
  exact inserted_insertRoot? put

theorem childrenOf?_eq_some_iff (distinct : f.toList.Nodup) :
    childrenOf? x f = some c ↔ f.AnyTree fun l children => l = x ∧ children = c := by
  rw [anyTree_iff distinct]
  constructor
  · intro found
    exact ⟨x, c, found, rfl, rfl⟩
  · rintro ⟨_, _, found, rfl, rfl⟩
    exact found

/-- Trees keep their children when their row changes its order. -/
theorem childrenOf?_moveRoot? (distinct : f.toList.Nodup) (moved : moveRoot? side a b f = some g) (x : α) :
    childrenOf? x g = childrenOf? x f := by
  have distinct' : g.toList.Nodup := (perm_moveRoot? moved).nodup_iff.mpr distinct
  ext c
  rw [childrenOf?_eq_some_iff distinct', childrenOf?_eq_some_iff distinct, anyTree_moveRoot? moved]

theorem not_mem_of_childrenOf? (distinct : f.toList.Nodup) (found : childrenOf? p f = some row) : p ∉ row.toList :=
  (List.nodup_cons.mp ((childrenOf?_sublist found).nodup distinct)).1

/-- Only the label whose row changed its order has other children than before. -/
theorem roots_childrenOf?_moved (distinct : f.toList.Nodup) (found : childrenOf? p f = some row)
    (moved : moveRoot? side a b row = some row') (other : x ≠ p) :
    (childrenOf? x (mapChildren p (fun _ => row') f)).map roots = (childrenOf? x f).map roots := by
  -- Nothing below the row is below the label itself, so the trees in the row stay as they are.
  have inner : ∀ c, childrenOf? p f = some c →
      childrenOf? x row' = (childrenOf? x c).map (mapChildren p fun _ => row') := by
    intro c found'
    obtain rfl := Option.some.inj (found.symm.trans found')
    have below := (List.nodup_cons.mp ((childrenOf?_sublist found).nodup distinct)).2
    rw [childrenOf?_moveRoot? below moved]
    cases inside : childrenOf? x row with
    | none => rfl
    | some e =>
        have outside : p ∉ e.toList := fun mem =>
          not_mem_of_childrenOf? distinct found (childrenOf?_subset inside mem)
        rw [Option.map_some, mapChildren_of_not_mem outside]
  rw [childrenOf?_mapChildren_of_inner other inner distinct, Option.map_map]
  congr 1
  funext c
  exact roots_mapChildren p _ c

end Forest

variable {d d' : Document} {s : Session} {side : Forest.Side} {h r p : Handle}

namespace Document

/-- Whether two elements are children of one that hangs together with the root. -/
def Together (d : Document) (h r p : Handle) : Prop :=
  h ≠ r ∧ d.Attached p ∧ h ∈ d.children p ∧ r ∈ d.children p

/-- What a move makes of a document: an element is put next to another, and all else stays. -/
structure Moved (side : Forest.Side) (h r p : Handle) (d d' : Document) : Prop where
  elements : d'.elements = d.elements
  row : Forest.Inserted side h r ((d.children p).erase h) (d'.children p)
  others : ∀ x, x ≠ p → d'.children x = d.children x

theorem together_iff (hd : d.WellFormed) :
    d.Together h r p ↔ h ≠ r ∧ d.outline.parent? h = some p ∧ d.outline.parent? r = some p := by
  rw [Together, attached_iff hd]
  constructor
  · rintro ⟨other, attached, first, second⟩
    exact ⟨other, (mem_children_iff hd attached).mp first, (mem_children_iff hd attached).mp second⟩
  · rintro ⟨other, first, second⟩
    have attached : p ∈ d.handles := Forest.parent?_mem first
    exact ⟨other, attached, (mem_children_iff hd attached).mpr first, (mem_children_iff hd attached).mpr second⟩

theorem children_eq (d : Document) (x : Handle) :
    d.children x = (((d.outline.childrenOf? x).or (d.detached.childrenOf? x)).map Forest.roots).getD [] := by
  rw [children, below]
  cases (d.outline.childrenOf? x).or (d.detached.childrenOf? x) <;> rfl

theorem moved_of_moveAmong? (hd : d.WellFormed) (attached : p ∈ d.handles)
    (made : d.moveAmong? side p h r = some d') : d.Moved side h r p d' := by
  obtain ⟨row, moved, made⟩ := Option.map_eq_some_iff.mp made
  have found := childrenOf?_below attached
  constructor
  case elements => rw [← made]
  case row =>
    have here : d'.outline.childrenOf? p = some row := by
      rw [← made, Forest.childrenOf?_mapChildren_self, found, Option.map_some]
    rw [children, children, below_of_childrenOf? here]
    exact Forest.inserted_moveRoot? moved
  case others =>
    intro x other
    have same := Forest.roots_childrenOf?_moved hd.handles_nodup found moved other
    rw [← made, children_eq, children_eq, Forest.mapChildren_of_not_mem (hd.not_mem_detached attached),
      Option.map_or, Option.map_or, same]

/-! ## Answers -/

theorem isSome_move?_iff_together (hd : d.WellFormed) : (d.move? side h r).isSome ↔ ∃ p, d.Together h r p := by
  rw [isSome_move?, Forest.siblings_iff hd.handles_nodup]
  simp only [together_iff hd, exists_and_left]

theorem move?_move? (hd : d.WellFormed) (moved : d.move? side h r = some d') : d'.move? side h r = some d' := by
  obtain ⟨other, outline, made, rfl⟩ := move?_eq_some_iff.mp moved
  exact move?_eq_some_iff.mpr ⟨other, outline, Forest.move?_move? hd.handles_nodup other made, rfl⟩

/-- A call to move an element answers whether there is a place for it, and makes the move if there is. -/
theorem call_move (hd : d.WellFormed) (side : Forest.Side) (hh : h < d.elements.size) (hr : r < d.elements.size) :
    d.call (.edit (.move side h r)) =
      (.ok (.edited (.moved (d.move? side h r).isSome)), (d.move? side h r).getD d) := by
  have known : ∀ n : Handle, n < d.elements.size → d.handle? n = .ok n := by
    intro n within
    simp [handle?, within]
  simp only [call, Edit.apply, bind, Except.bind, pure, Except.pure, known h hh, known r hr]
  by_cases same : h = r
  · simp [same, move?]
  · simp only [same, if_false]
    cases orphan : d.parent? h with
    | none =>
        -- The call is answered before the other element is looked at; there is no place for it anyway.
        have stays : d.move? side h r = none := by
          rw [← Option.not_isSome_iff_eq_none, isSome_move?_iff_together hd]
          rintro ⟨p, together⟩
          have above := ((together_iff hd).mp together).2.1
          rw [parent?_eq hd, orphan] at above
          cases above
        simp [stays]
    | some p => cases d.move? side h r <;> rfl

theorem call_move_together (hd : d.WellFormed) (side : Forest.Side) (hh : h < d.elements.size)
    (hr : r < d.elements.size) (together : d.Together h r p) :
    ∃ d', d.call (.edit (.move side h r)) = (.ok (.edited (.moved true)), d') ∧ d.Moved side h r p d' ∧
      d'.call (.edit (.move side h r)) = (.ok (.edited (.moved true)), d') := by
  obtain ⟨other, above, above'⟩ := (together_iff hd).mp together
  obtain ⟨d', among, moved⟩ := moveAmong?_eq side hd other above above'
  have place := moved_of_moveAmong? hd (Forest.parent?_mem above) among
  have again := move?_move? hd moved
  refine ⟨d', ?_, place, ?_⟩
  · rw [call_move hd side hh hr, moved]
    rfl
  · rw [← place.elements] at hh hr
    rw [call_move (hd.move? moved) side hh hr, again]
    rfl

theorem call_move_apart (hd : d.WellFormed) (side : Forest.Side) (hh : h < d.elements.size)
    (hr : r < d.elements.size) (apart : ¬ ∃ p, d.Together h r p) :
    d.call (.edit (.move side h r)) = (.ok (.edited (.moved false)), d) := by
  have stays : d.move? side h r = none := by
    rwa [← Option.not_isSome_iff_eq_none, isSome_move?_iff_together hd]
  rw [call_move hd side hh hr, stays]
  rfl

end Document

/-! ## Moves in a session -/

namespace Session

/-- What a session makes of a call to put one element next to another. -/
structure Places (s : Session) (side : Forest.Side) (h r : Handle) : Prop where
  moves_iff : (s.move side h r).1 = .ok (.edited (.moved true)) ↔ ∃ p, s.document.Together h r p
  place : ∀ p, s.document.Together h r p → s.document.Moved side h r p (s.move side h r).2.document
  again : ∀ p, s.document.Together h r p →
    ((s.move side h r).2.move side h r).1 = .ok (.edited (.moved true)) ∧
      ((s.move side h r).2.move side h r).2.document = (s.move side h r).2.document
  stays : (¬ ∃ p, s.document.Together h r p) →
    (s.move side h r).1 = .ok (.edited (.moved false)) ∧ (s.move side h r).2.document = s.document

theorem Sound.places (hs : s.Sound) (side : Forest.Side) (hh : h < s.document.elements.size)
    (hr : r < s.document.elements.size) : s.Places side h r := by
  have first := agrees_move hs side h r
  have second := agrees_move first.sound side h r
  have stays : (¬ ∃ p, s.document.Together h r p) →
      (s.move side h r).1 = .ok (.edited (.moved false)) ∧ (s.move side h r).2.document = s.document := by
    intro apart
    rw [first.answer, first.document, Document.call_move_apart hs.wellFormed side hh hr apart]
    exact ⟨rfl, rfl⟩
  constructor
  case moves_iff =>
    constructor
    · intro happened
      by_contra apart
      rw [(stays apart).1] at happened
      cases happened
    · rintro ⟨p, together⟩
      obtain ⟨d', moves, _, _⟩ := Document.call_move_together hs.wellFormed side hh hr together
      rw [first.answer, moves]
  case place =>
    intro p together
    obtain ⟨d', moves, place, _⟩ := Document.call_move_together hs.wellFormed side hh hr together
    rwa [first.document, moves]
  case again =>
    intro p together
    obtain ⟨d', moves, _, again⟩ := Document.call_move_together hs.wellFormed side hh hr together
    rw [second.answer, second.document, first.document, moves, again]
    exact ⟨rfl, rfl⟩
  case stays => exact stays

/-- In any session, an element moves next to another just if the two are different children of one that hangs
together with the root. These children then have it in its new place, nothing else is different, and the same
call once more changes nothing. -/
theorem move_places (hd : d.Reachable) (calls : List Call) (side : Forest.Side)
    (hh : h < (run { document := d } calls).2.document.elements.size)
    (hr : r < (run { document := d } calls).2.document.elements.size) :
    (run { document := d } calls).2.Places side h r :=
  (sound_run (sound_start hd.wellFormed) calls).places side hh hr

/-- Adds a third text to the group and looks up parents. -/
def enlarge : List Call :=
  [.edit (.appendChild 1 "text" [] ""), .parent 2]

/-- The first text moves behind the third. -/
theorem enlarge_places : group.Reachable ∧ (run { document := group } enlarge).2.parents.isSome ∧
    (run { document := group } enlarge).2.document.Together 2 5 1 ∧
    (run { document := group } enlarge).2.document.children 1 = [2, 3, 5] ∧
    ((run { document := group } enlarge).2.move .after 2 5).2.document.children 1 = [3, 5, 2] ∧
    (run { document := group } enlarge).2.Places .after 2 5 := by
  have reachable : group.Reachable := .tree _ (by decide)
  have sound := sound_run (sound_start reachable.wellFormed) enlarge
  have attached := (Document.attached_iff sound.wellFormed (h := 1)).mpr (by decide)
  exact ⟨reachable, by decide, ⟨by decide, attached, by decide, by decide⟩, by decide, by decide,
    move_places reachable enlarge .after (by decide) (by decide)⟩

end Session

end SvgForm
