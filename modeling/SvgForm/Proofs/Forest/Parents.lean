import Mathlib.Logic.Relation
import SvgForm.Document.Session
import SvgForm.Proofs.Forest.Rows
/-! # Parents in forests

Where no label occurs twice, every label that is not in the first row has one parent, whose children it is
among. The way up from parent to parent is the path to a label, and a move that is made in the row of a parent
is the move that is made wherever the row is found.
-/

namespace SvgForm.Forest

variable {α : Type} {side : Side} {a b x : α} {c f g : Forest α}

/-! ## Orders and ways -/

/-- A row of labels, and what lists it with all that is below it: each label is followed by the listing of its
children, and then by that of the rest of the row. -/
inductive DocumentOrder (children : α → List α) : (row listing : List α) → Prop
  | nil : DocumentOrder children [] []
  | cons {row below rest : List α} {a : α} (inner : DocumentOrder children (children a) below)
    (after : DocumentOrder children row rest) : DocumentOrder children (a :: row) (a :: (below ++ rest))

theorem DocumentOrder.reaches {children : α → List α} {row listing : List α}
    (order : DocumentOrder children row listing) (mem : x ∈ listing) :
    ∃ a ∈ row, Relation.ReflTransGen (fun p c => c ∈ children p) a x := by
  induction order with
  | nil => cases mem
  | cons inner after ihc ihs =>
      rcases List.mem_cons.mp mem with rfl | mem
      · exact ⟨_, List.mem_cons_self, .refl⟩
      · rcases List.mem_append.mp mem with inside | later
        · obtain ⟨b, child, path⟩ := ihc inside
          exact ⟨_, List.mem_cons_self, .head child path⟩
        · obtain ⟨b, sibling, path⟩ := ihs later
          exact ⟨b, List.mem_cons_of_mem _ sibling, path⟩

/-- The way up from a label, which ends where there is no parent. -/
inductive Climbs (parent? : α → Option α) : α → List α → Prop
  | top {a : α} (none : parent? a = none) : Climbs parent? a []
  | up {a b : α} {path : List α} (some : parent? a = some b) (rest : Climbs parent? b path) :
    Climbs parent? a (b :: path)

theorem Climbs.head? {parent? : α → Option α} {path : List α} (way : Climbs parent? a path) :
    path.head? = parent? a := by
  cases way with
  | top none => exact none.symm
  | up some rest => exact some.symm

/-- Where everything on the way has the parents it had, the way is what it was. -/
theorem Climbs.eq {parent? parent?' : α → Option α} {path path' : List α} (way : Climbs parent? a path)
    (way' : Climbs parent?' a path') (same : ∀ b ∈ a :: path, parent?' b = parent? b) : path' = path := by
  induction way generalizing path' with
  | top none =>
      cases way' with
      | top => rfl
      | up some _ =>
          rw [same _ List.mem_cons_self, none] at some
          cases some
  | up above _ ih =>
      cases way' with
      | top none =>
          rw [same _ List.mem_cons_self, above] at none
          cases none
      | up some rest =>
          rw [same _ List.mem_cons_self, above] at some
          obtain rfl := Option.some.inj some
          rw [ih rest fun c mem => same c (List.mem_cons_of_mem _ mem)]

/-! ## Labels with a parent -/

/-- Every label stands in the first row or has a parent. -/
theorem perm_roots_parents (f : Forest α) : f.toList.Perm (f.roots ++ f.parents.map Prod.fst) := by
  induction f with
  | nil => exact List.Perm.refl _
  | node a children siblings ihc ihs =>
      simp only [toList, roots, parents, List.map_append, List.map_map, Function.comp_def, List.map_id',
        List.cons_append]
      apply List.Perm.cons
      calc children.toList ++ siblings.toList
        _ |>.Perm ((children.roots ++ children.parents.map Prod.fst) ++
            (siblings.roots ++ siblings.parents.map Prod.fst)) := ihc.append ihs
        _ |>.Perm (siblings.roots ++ ((children.roots ++ children.parents.map Prod.fst) ++
            siblings.parents.map Prod.fst)) := List.perm_append_comm_assoc ..
        _ = siblings.roots ++ (children.roots ++ (children.parents.map Prod.fst ++
            siblings.parents.map Prod.fst)) := by rw [List.append_assoc]

theorem mem_of_mem_parents {entry : α × α} (mem : entry ∈ f.parents) : entry.2 ∈ f.toList := by
  induction f with
  | nil => cases mem
  | node a children siblings ihc ihs =>
      rw [parents, List.mem_append, List.mem_append] at mem
      rcases mem with child | inside | after
      · obtain ⟨b, _, rfl⟩ := List.mem_map.mp child
        exact List.mem_cons_self
      · exact List.mem_cons_of_mem _ (List.mem_append_left _ (ihc inside))
      · exact List.mem_cons_of_mem _ (List.mem_append_right _ (ihs after))

theorem documentOrder_of_rows {children : α → List α}
    (rows : ∀ a c, f.AnyTree (fun b row => b = a ∧ row = c) → children a = c.roots) :
    DocumentOrder children f.roots f.toList := by
  induction f with
  | nil => exact .nil
  | node a inner after ihc ihs =>
      apply DocumentOrder.cons
      · rw [rows a inner (.inl ⟨rfl, rfl⟩)]
        exact ihc fun b c tree => rows b c (.inr (.inl tree))
      · exact ihs fun b c tree => rows b c (.inr (.inr tree))

theorem Siblings.mem_left (siblings : f.Siblings a b) : a ∈ f.toList := by
  induction f with
  | nil => exact siblings.elim
  | node x inner after ihc ihs =>
      rcases siblings with ⟨here, _⟩ | inside | later
      · exact List.mem_cons_of_mem _ (List.mem_append_left _ (roots_subset here))
      · exact List.mem_cons_of_mem _ (List.mem_append_left _ (ihc inside))
      · exact List.mem_cons_of_mem _ (List.mem_append_right _ (ihs later))

variable [DecidableEq α]

def parent? (f : Forest α) (a : α) : Option α :=
  f.parents.lookup a

theorem parent?_eq_none_of_not_mem (absent : b ∉ f.toList) : f.parent? b = none := by
  rw [parent?, List.lookup_eq_none_iff]
  intro entry mem
  have listed : entry.1 ∈ f.toList :=
    f.perm_roots_parents.mem_iff.mpr (List.mem_append_right _ (List.mem_map_of_mem mem))
  have other : b ≠ entry.1 := by
    rintro rfl
    exact absent listed
  simpa using other

theorem parent?_mem (found : f.parent? b = some a) : a ∈ f.toList := by
  obtain ⟨before, after, split, _⟩ := List.lookup_eq_some_iff.mp found
  have entry : (b, a) ∈ f.parents := by
    rw [split]
    exact List.mem_append_right _ List.mem_cons_self
  exact mem_of_mem_parents entry

theorem mem_of_parent? (found : f.parent? b = some a) : b ∈ f.toList := by
  by_contra absent
  rw [parent?_eq_none_of_not_mem absent] at found
  cases found

theorem mem_roots_of_parent? (mem : b ∈ f.toList) (orphan : f.parent? b = none) : b ∈ f.roots := by
  rcases List.mem_append.mp (f.perm_roots_parents.mem_iff.mp mem) with root | child
  · exact root
  · obtain ⟨entry, listed, rfl⟩ := List.mem_map.mp child
    rw [parent?, List.lookup_eq_none_iff] at orphan
    simpa using orphan entry listed

theorem parent?_of_mem_roots (distinct : f.toList.Nodup) (root : b ∈ f.roots) : f.parent? b = none := by
  have apart := (List.nodup_append'.mp (f.perm_roots_parents.nodup_iff.mp distinct)).2.2
  rw [parent?, List.lookup_eq_none_iff]
  intro entry mem
  have other : b ≠ entry.1 := by
    rintro rfl
    exact apart root (List.mem_map_of_mem mem)
  simpa using other

theorem parent?_node {children siblings : Forest α} (distinct : (node a children siblings).toList.Nodup) :
    (node a children siblings).parent? b =
      if b ∈ children.roots then some a
      else if b ∈ children.toList then children.parent? b else siblings.parent? b := by
  obtain ⟨_, _, _, apart⟩ := nodup_node.mp distinct
  rw [parent?, parents, List.lookup_append, List.lookup_append]
  split
  case isTrue root =>
      rw [List.lookup_graph (fun _ => a) root, Option.some_or]
  case isFalse other =>
      have first : (children.roots.map (·, a)).lookup b = none := by
        rw [List.lookup_eq_none_iff]
        intro entry mem
        obtain ⟨child, root, rfl⟩ := List.mem_map.mp mem
        have : b ≠ child := by
          rintro rfl
          exact other root
        simpa using this
      rw [first, Option.none_or]
      change (children.parent? b).or (siblings.parent? b) = _
      split
      case isTrue inside =>
          rw [parent?_eq_none_of_not_mem fun mem => apart inside mem, Option.or_none]
      case isFalse outside =>
          rw [parent?_eq_none_of_not_mem outside, Option.none_or]

/-- A label has the parent whose children it is among. -/
theorem parent?_eq_some_iff (distinct : f.toList.Nodup) :
    f.parent? b = some a ↔ ∃ c, childrenOf? a f = some c ∧ b ∈ c.roots := by
  induction f with
  | nil => simp [parent?, parents, childrenOf?]
  | node x children siblings ihc ihs =>
      obtain ⟨⟨absent, absent'⟩, nc, ns, apart⟩ := nodup_node.mp distinct
      rw [parent?_node distinct, childrenOf?]
      by_cases here : x = a
      · subst here
        simp only [if_true, Option.some.injEq, exists_eq_left']
        split
        case isTrue root => exact iff_of_true rfl root
        case isFalse other =>
            apply iff_of_false _ other
            split
            case isTrue => exact fun found => absent (parent?_mem found)
            case isFalse => exact fun found => absent' (parent?_mem found)
      · simp only [here, if_false]
        constructor
        · intro found
          split at found
          case isTrue => exact absurd (Option.some.inj found) here
          case isFalse =>
              split at found
              case isTrue inside =>
                  obtain ⟨c, below, mem⟩ := (ihc nc).mp found
                  exact ⟨c, by rw [below, Option.some_or], mem⟩
              case isFalse =>
                  obtain ⟨c, below, mem⟩ := (ihs ns).mp found
                  have elsewhere : a ∉ children.toList := fun inside => apart inside (parent?_mem found)
                  exact ⟨c, by rw [childrenOf?_eq_none.mpr elsewhere, Option.none_or, below], mem⟩
        · rintro ⟨c, below, mem⟩
          rcases Option.or_eq_some_iff.mp below with inside | ⟨_, after⟩
          · have found := (ihc nc).mpr ⟨c, inside, mem⟩
            have other : b ∉ children.roots := by
              intro root
              rw [parent?_of_mem_roots nc root] at found
              cases found
            rw [if_neg other, if_pos (mem_of_parent? found), found]
          · have found := (ihs ns).mpr ⟨c, after, mem⟩
            have outside : b ∉ children.toList := fun inside => apart inside (mem_of_parent? found)
            rw [if_neg fun root => outside (roots_subset root), if_neg outside, found]

/-! ## The way up -/

/-- The way up inside the children of a label goes on to that label. -/
theorem climbs_children {children siblings : Forest α} {way : List α}
    (distinct : (node a children siblings).toList.Nodup) (inside : b ∈ children.toList)
    (up : Climbs children.parent? b way) : Climbs (node a children siblings).parent? b (way ++ [a]) := by
  obtain ⟨⟨absent, absent'⟩, nc, ns, apart⟩ := nodup_node.mp distinct
  induction up with
  | top orphan =>
      apply Climbs.up
      · rw [parent?_node distinct, if_pos (mem_roots_of_parent? inside orphan)]
      · apply Climbs.top
        exact parent?_of_mem_roots distinct List.mem_cons_self
  | @up b p way found rest ih =>
      apply Climbs.up _ (ih (parent?_mem found))
      have other : b ∉ children.roots := by
        intro root
        rw [parent?_of_mem_roots nc root] at found
        cases found
      rw [parent?_node distinct, if_neg other, if_pos inside, found]

theorem climbs_siblings {children siblings : Forest α} {way : List α}
    (distinct : (node a children siblings).toList.Nodup) (after : b ∈ siblings.toList)
    (up : Climbs siblings.parent? b way) : Climbs (node a children siblings).parent? b way := by
  obtain ⟨_, _, _, apart⟩ := nodup_node.mp distinct
  have same : ∀ x ∈ siblings.toList, (node a children siblings).parent? x = siblings.parent? x := by
    intro x mem
    have outside : x ∉ children.toList := fun inside => apart inside mem
    rw [parent?_node distinct, if_neg fun root => outside (roots_subset root), if_neg outside]
  induction up with
  | top orphan => exact .top (by rw [same _ after, orphan])
  | up found _ ih => exact .up (by rw [same _ after, found]) (ih (parent?_mem found))

theorem mem_of_pathTo? {above path : List α} (found : pathTo? b above f = some path) : b ∈ f.toList := by
  by_contra absent
  rw [pathTo?_eq_none.mpr absent] at found
  cases found

theorem climbs_of_pathTo? {above path : List α} (distinct : f.toList.Nodup)
    (found : pathTo? b above f = some path) : ∃ way, path = way ++ above ∧ Climbs f.parent? b way := by
  induction f generalizing above with
  | nil => cases found
  | node c children siblings ihc ihs =>
      obtain ⟨_, nc, ns, _⟩ := nodup_node.mp distinct
      rw [pathTo?] at found
      split at found
      case isTrue same =>
          obtain rfl := Option.some.inj found
          subst same
          exact ⟨[], rfl, .top (parent?_of_mem_roots distinct List.mem_cons_self)⟩
      case isFalse =>
          rcases Option.or_eq_some_iff.mp found with inside | ⟨_, after⟩
          · obtain ⟨way, rfl, up⟩ := ihc nc inside
            exact ⟨way ++ [c], by simp, climbs_children distinct (mem_of_pathTo? inside) up⟩
          · obtain ⟨way, rfl, up⟩ := ihs ns after
            exact ⟨way, rfl, climbs_siblings distinct (mem_of_pathTo? after) up⟩

/-- The path to a label is the way up from it; there is neither for what is no label. -/
theorem climbs_pathTo? (distinct : f.toList.Nodup) (b : α) :
    Climbs f.parent? b ((pathTo? b [] f).getD []) := by
  cases found : pathTo? b [] f with
  | none => exact .top (parent?_eq_none_of_not_mem (pathTo?_eq_none.mp found))
  | some path =>
      obtain ⟨way, rfl, up⟩ := climbs_of_pathTo? distinct found
      rwa [List.append_nil]

/-- The way up ends in the first row. -/
theorem Climbs.getLast?_mem_roots {way : List α} (up : Climbs f.parent? b way) (mem : b ∈ f.toList) :
    ∃ r ∈ f.roots, (b :: way).getLast? = some r := by
  induction up with
  | top orphan => exact ⟨_, mem_roots_of_parent? mem orphan, rfl⟩
  | up found _ ih =>
      obtain ⟨r, root, last⟩ := ih (parent?_mem found)
      exact ⟨r, root, by rw [List.getLast?_cons_cons, last]⟩

theorem length_pathTo?_le {above path : List α} (found : pathTo? b above f = some path) :
    path.length ≤ above.length + f.parents.length := by
  induction f generalizing above with
  | nil => cases found
  | node c children siblings ihc ihs =>
      rw [pathTo?] at found
      simp only [parents, List.length_append, List.length_map]
      split at found
      case isTrue =>
          obtain rfl := Option.some.inj found
          omega
      case isFalse =>
          rcases Option.or_eq_some_iff.mp found with inside | ⟨_, after⟩
          · have le := ihc inside
            have nonempty : 0 < children.roots.length := by
              cases children with
              | nil => cases inside
              | node => exact Nat.succ_pos _
            rw [List.length_cons] at le
            omega
          · have le := ihs after
            omega

/-- A way up that is no longer than the steps that may be made is found. -/
theorem climb_eq {parents : Parents} {h : Handle} {way : List Handle} {steps : Nat}
    (up : Climbs (fun x => parents.lookup x) h way) (le : way.length ≤ steps) : parents.climb steps h = way := by
  induction up generalizing steps with
  | top orphan =>
      cases steps with
      | zero => rfl
      | succ steps => rw [Parents.climb, orphan]
  | up found _ ih =>
      rw [List.length_cons] at le
      cases steps with
      | zero => omega
      | succ steps =>
          simp only [Parents.climb, found]
          rw [ih (by omega)]

/-! ## Rows of children -/

theorem siblings_iff (distinct : f.toList.Nodup) :
    f.Siblings a b ↔ ∃ p, f.parent? a = some p ∧ f.parent? b = some p := by
  rw [Siblings, anyTree_iff distinct]
  constructor
  · rintro ⟨p, c, found, ha, hb⟩
    exact ⟨p, (parent?_eq_some_iff distinct).mpr ⟨c, found, ha⟩,
      (parent?_eq_some_iff distinct).mpr ⟨c, found, hb⟩⟩
  · rintro ⟨p, above, above'⟩
    obtain ⟨c, found, ha⟩ := (parent?_eq_some_iff distinct).mp above
    obtain ⟨c', found', hb⟩ := (parent?_eq_some_iff distinct).mp above'
    obtain rfl := Option.some.inj (found.symm.trans found')
    exact ⟨p, c, found, ha, hb⟩

/-! ## Moves in the row of a parent -/

/-- A label that is below another is not in the first row. -/
theorem not_mem_roots_of_childrenOf? (distinct : f.toList.Nodup) (found : childrenOf? b f = some c)
    (mem : a ∈ c.roots) : a ∉ f.roots := by
  intro root
  have := parent?_of_mem_roots distinct root
  rw [(parent?_eq_some_iff distinct).mpr ⟨c, found, mem⟩] at this
  cases this

theorem move?_eq_mapChildren (distinct : f.toList.Nodup) (found : childrenOf? x f = some c)
    (other : a ≠ b) (moved : moveRoot? side a b c = some g) :
    move? side a b f = some (mapChildren x (fun _ => g) f) := by
  have here : a ∈ c.roots := ((isSome_moveRoot? other).mp (by rw [moved]; rfl)).1
  induction f with
  | nil => cases found
  | node y children siblings ihc ihs =>
      obtain ⟨⟨absent, absent'⟩, nc, ns, apart⟩ := nodup_node.mp distinct
      rw [childrenOf?] at found
      rw [move?, mapChildren]
      split at found
      case isTrue same =>
          obtain rfl := Option.some.inj found
          subst same
          rw [moved, Option.some_or, if_pos rfl, mapChildren_of_not_mem absent']
      case isFalse different =>
          rw [if_neg different]
          rcases Option.or_eq_some_iff.mp found with inside | ⟨_, after⟩
          · have mem := (childrenOf?_sublist inside).subset List.mem_cons_self
            have first : moveRoot? side a b children = none := by
              rw [← Option.not_isSome_iff_eq_none, isSome_moveRoot? other]
              exact fun both => not_mem_roots_of_childrenOf? nc inside here both.1
            rw [first, Option.none_or, ihc nc inside, mapChildren_of_not_mem fun below => apart mem below]
          · have mem := (childrenOf?_sublist after).subset List.mem_cons_self
            have outside : a ∉ children.toList := fun inside =>
              apart inside (childrenOf?_subset after (roots_subset here))
            have first : moveRoot? side a b children = none := by
              rw [← Option.not_isSome_iff_eq_none, isSome_moveRoot? other]
              exact fun both => outside (roots_subset both.1)
            have second : move? side a b children = none := by
              rw [← Option.not_isSome_iff_eq_none, isSome_move? other]
              exact fun siblings => outside siblings.mem_left
            rw [first, second, Option.none_or, mapChildren_of_not_mem fun inside => apart inside mem,
              ihs ns after]
            rfl

end SvgForm.Forest
