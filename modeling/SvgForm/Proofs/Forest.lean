import Mathlib.Data.List.Nodup
import Mathlib.Data.List.Perm.Basic
import SvgForm.Forest
/-! # Trees in forests

The labels of a forest under its changes, and which label is below which. Where no label occurs twice, the
labels below one are those of its children, and the labels above one are those it is below.
-/

namespace SvgForm.Forest

variable {α β : Type}

/-! ## Labels -/

theorem append_nil (f : Forest α) : f.append .nil = f := by
  induction f with
  | nil => rfl
  | node a children siblings _ ih => rw [append, ih]

theorem append_assoc (e f g : Forest α) : (e.append f).append g = e.append (f.append g) := by
  induction e with
  | nil => rfl
  | node b children siblings _ ih => rw [append, append, append, ih]

@[simp] theorem toList_append (f g : Forest α) : (f.append g).toList = f.toList ++ g.toList := by
  induction f with
  | nil => rfl
  | node a children siblings _ ih => simp [append, toList, ih]

@[simp] theorem roots_append (f g : Forest α) : (f.append g).roots = f.roots ++ g.roots := by
  induction f with
  | nil => rfl
  | node a children siblings _ ih => simp [append, roots, ih]

@[simp] theorem toList_ofRoots (l : List α) : (ofRoots l).toList = l := by
  induction l with
  | nil => rfl
  | cons a l ih => simp [ofRoots, toList, ih]

@[simp] theorem roots_ofRoots (l : List α) : (ofRoots l).roots = l := by
  induction l with
  | nil => rfl
  | cons a l ih => simp [ofRoots, roots, ih]

theorem ofRoots_append (l l' : List α) : ofRoots (l ++ l') = (ofRoots l).append (ofRoots l') := by
  induction l with
  | nil => rfl
  | cons a l ih => simp [ofRoots, append, ih]

@[simp] theorem toList_number (n : Nat) (f : Forest α) :
    (f.number n).toList = List.range' n f.toList.length := by
  induction f generalizing n with
  | nil => rfl
  | node a children siblings ihc ihs =>
      simp only [number, toList, ihc, ihs, List.length_cons, List.length_append, List.range'_succ]
      rw [List.range'_append_1]

@[simp] theorem toList_map (g : α → β) (f : Forest α) : (f.map g).toList = f.toList.map g := by
  induction f with
  | nil => rfl
  | node a children siblings ihc ihs => simp [map, toList, ihc, ihs]

theorem map_congr {f g : α → β} {t : Forest α} (same : ∀ a ∈ t.toList, f a = g a) : t.map f = t.map g := by
  induction t with
  | nil => rfl
  | node a children siblings ihc ihs =>
      rw [map, map, same a List.mem_cons_self,
        ihc fun b hb => same b (List.mem_cons_of_mem a (List.mem_append_left _ hb)),
        ihs fun b hb => same b (List.mem_cons_of_mem a (List.mem_append_right _ hb))]

theorem roots_sublist (f : Forest α) : f.roots.Sublist f.toList := by
  induction f with
  | nil => exact .slnil
  | node a children siblings _ ih => exact (ih.trans (List.sublist_append_right _ _)).cons_cons a

theorem roots_subset {f : Forest α} : f.roots ⊆ f.toList :=
  f.roots_sublist.subset

/-! ## Below -/

/-- Whether `b` is below a tree labelled `a`. -/
def Below (a b : α) : Forest α → Prop
  | nil => False
  | node c children siblings =>
    a = c ∧ b ∈ children.toList ∨ Below a b children ∨ Below a b siblings

theorem Below.mem_left {a b : α} {f : Forest α} (h : f.Below a b) : a ∈ f.toList := by
  induction f with
  | nil => exact h.elim
  | node c children siblings ihc ihs =>
      rcases h with ⟨rfl, _⟩ | inside | after
      · exact List.mem_cons_self
      · exact List.mem_cons_of_mem _ (List.mem_append_left _ (ihc inside))
      · exact List.mem_cons_of_mem _ (List.mem_append_right _ (ihs after))

theorem Below.mem_right {a b : α} {f : Forest α} (h : f.Below a b) : b ∈ f.toList := by
  induction f with
  | nil => exact h.elim
  | node c children siblings ihc ihs =>
      rcases h with ⟨_, inside⟩ | inside | after
      · exact List.mem_cons_of_mem _ (List.mem_append_left _ inside)
      · exact List.mem_cons_of_mem _ (List.mem_append_left _ (ihc inside))
      · exact List.mem_cons_of_mem _ (List.mem_append_right _ (ihs after))

/-- What it takes for a tree and those after it to have no label twice. -/
theorem below_append {a b : α} {f g : Forest α} :
    (f.append g).Below a b ↔ f.Below a b ∨ g.Below a b := by
  induction f with
  | nil => simp [append, Below]
  | node c children siblings _ ih => simp [append, Below, ih, or_assoc]

theorem not_below_ofRoots {a b : α} (l : List α) : ¬ (ofRoots l).Below a b := by
  induction l with
  | nil => exact id
  | cons c l ih => simp [ofRoots, Below, toList, ih]

theorem nodup_node {c : α} {children siblings : Forest α} :
    (node c children siblings).toList.Nodup ↔ (c ∉ children.toList ∧ c ∉ siblings.toList) ∧
      children.toList.Nodup ∧ siblings.toList.Nodup ∧ children.toList.Disjoint siblings.toList := by
  simp [toList, List.nodup_append']

theorem perm_append_between {s s' t t' : List α} (h : (s ++ t).Perm (s' ++ t')) (mid : List α) :
    (s ++ mid ++ t).Perm (s' ++ mid ++ t') := by
  rw [List.append_assoc, List.append_assoc]
  calc s ++ (mid ++ t)
    _ |>.Perm (mid ++ (s ++ t)) := List.perm_append_comm_assoc ..
    _ |>.Perm (mid ++ (s' ++ t')) := h.append_left mid
    _ |>.Perm (s' ++ (mid ++ t')) := List.perm_append_comm_assoc ..

variable [DecidableEq α]

/-! ## Children -/

theorem childrenOf?_append (a : α) (f g : Forest α) :
    childrenOf? a (f.append g) = (childrenOf? a f).or (childrenOf? a g) := by
  induction f with
  | nil => rfl
  | node b children siblings _ ih =>
      rw [append, childrenOf?, childrenOf?]
      split
      case isTrue => rw [Option.some_or]
      case isFalse => rw [ih, Option.or_assoc]

theorem childrenOf?_sublist {a : α} {f c : Forest α} (h : childrenOf? a f = some c) :
    (a :: c.toList).Sublist f.toList := by
  induction f with
  | nil => simp [childrenOf?] at h
  | node b children siblings ihc ihs =>
      simp only [childrenOf?] at h
      split at h
      case isTrue same =>
        obtain rfl := Option.some.inj h
        subst same
        exact (List.sublist_append_left _ _).cons_cons _
      case isFalse =>
        rcases Option.or_eq_some_iff.mp h with inside | ⟨_, after⟩
        · exact ((ihc inside).trans (List.sublist_append_left _ _)).cons _
        · exact ((ihs after).trans (List.sublist_append_right _ _)).cons _

theorem childrenOf?_subset {a : α} {f c : Forest α} (h : childrenOf? a f = some c) :
    c.toList ⊆ f.toList :=
  fun _ mem => (childrenOf?_sublist h).subset (List.mem_cons_of_mem _ mem)

theorem childrenOf?_eq_none {a : α} {f : Forest α} : childrenOf? a f = none ↔ a ∉ f.toList := by
  induction f with
  | nil => simp [childrenOf?, toList]
  | node b children siblings ihc ihs =>
      by_cases same : b = a
      · simp [childrenOf?, toList, same]
      · simp [childrenOf?, toList, same, ihc, ihs, Ne.symm same]

theorem exists_childrenOf? {a : α} {f : Forest α} (h : a ∈ f.toList) :
    ∃ c, childrenOf? a f = some c :=
  Option.ne_none_iff_exists'.mp fun none => childrenOf?_eq_none.mp none h

/-- The labels below one are those of its children. -/
theorem below_iff_mem {a b : α} {f c : Forest α} (distinct : f.toList.Nodup)
    (h : childrenOf? a f = some c) : f.Below a b ↔ b ∈ c.toList := by
  induction f with
  | nil => simp [childrenOf?] at h
  | node x children siblings ihc ihs =>
      obtain ⟨⟨absent, absent'⟩, nc, ns, apart⟩ := nodup_node.mp distinct
      simp only [childrenOf?] at h
      split at h
      case isTrue same =>
        obtain rfl := Option.some.inj h
        subst same
        constructor
        · rintro (⟨_, mem⟩ | inside | after)
          · exact mem
          · exact absurd inside.mem_left absent
          · exact absurd after.mem_left absent'
        · exact fun mem => .inl ⟨rfl, mem⟩
      case isFalse other =>
        rcases Option.or_eq_some_iff.mp h with inside | ⟨_, after⟩
        · have ha := (childrenOf?_sublist inside).subset List.mem_cons_self
          rw [← ihc nc inside]
          constructor
          · rintro (⟨rfl, _⟩ | below | below)
            · exact absurd rfl other
            · exact below
            · exact (apart ha below.mem_left).elim
          · exact fun below => .inr (.inl below)
        · have ha := (childrenOf?_sublist after).subset List.mem_cons_self
          rw [← ihs ns after]
          constructor
          · rintro (⟨rfl, _⟩ | below | below)
            · exact absurd rfl other
            · exact (apart below.mem_left ha).elim
            · exact below
          · exact fun below => .inr (.inr below)

/-! ## Paths -/

theorem pathTo?_eq_none {b : α} {above : List α} {f : Forest α} :
    pathTo? b above f = none ↔ b ∉ f.toList := by
  induction f generalizing above with
  | nil => simp [pathTo?, toList]
  | node c children siblings ihc ihs =>
      by_cases same : c = b
      · simp [pathTo?, toList, same]
      · simp [pathTo?, toList, same, ihc, ihs, Ne.symm same]

/-- The path to a label holds the labels that it is below. -/
theorem mem_pathTo? {a b : α} {above path : List α} {f : Forest α} (distinct : f.toList.Nodup)
    (h : pathTo? b above f = some path) : a ∈ path ↔ a ∈ above ∨ f.Below a b := by
  induction f generalizing above with
  | nil => simp [pathTo?] at h
  | node c children siblings ihc ihs =>
      obtain ⟨⟨absent, absent'⟩, nc, ns, apart⟩ := nodup_node.mp distinct
      simp only [pathTo?] at h
      split at h
      case isTrue same =>
        obtain rfl := Option.some.inj h
        subst same
        refine ⟨.inl, ?_⟩
        rintro (mem | ⟨_, inside⟩ | inside | after)
        · exact mem
        · exact absurd inside absent
        · exact absurd inside.mem_right absent
        · exact absurd after.mem_right absent'
      case isFalse =>
        rcases Option.or_eq_some_iff.mp h with inside | ⟨outside, after⟩
        · have hb : b ∈ children.toList := by
            by_contra missing
            simp [pathTo?_eq_none.mpr missing] at inside
          rw [ihc nc inside, List.mem_cons]
          constructor
          · rintro ((rfl | mem) | below)
            · exact .inr (.inl ⟨rfl, hb⟩)
            · exact .inl mem
            · exact .inr (.inr (.inl below))
          · rintro (mem | ⟨rfl, _⟩ | below | below)
            · exact .inl (.inr mem)
            · exact .inl (.inl rfl)
            · exact .inr below
            · exact (apart hb below.mem_right).elim
        · have hb := pathTo?_eq_none.mp outside
          rw [ihs ns after]
          constructor
          · exact Or.imp_right fun below => .inr (.inr below)
          · rintro (mem | ⟨_, inside⟩ | below | below)
            · exact .inl mem
            · exact absurd inside hb
            · exact absurd below.mem_right hb
            · exact .inr below

/-! ## Changed children -/

theorem mapChildren_of_not_mem {a : α} {g : Forest α → Forest α} {f : Forest α}
    (h : a ∉ f.toList) : mapChildren a g f = f := by
  induction f with
  | nil => rfl
  | node b children siblings ihc ihs =>
      simp only [toList, List.mem_cons, List.mem_append, not_or] at h
      simp only [mapChildren, Ne.symm h.1, if_false, ihc h.2.1, ihs h.2.2]

theorem mapChildren_append (a : α) (g : Forest α → Forest α) (e f : Forest α) :
    mapChildren a g (e.append f) = (mapChildren a g e).append (mapChildren a g f) := by
  induction e with
  | nil => rfl
  | node b children siblings _ ih => rw [append, mapChildren, mapChildren, append, ih]

theorem roots_mapChildren (a : α) (g : Forest α → Forest α) (f : Forest α) :
    (mapChildren a g f).roots = f.roots := by
  induction f with
  | nil => rfl
  | node b children siblings _ ih => rw [mapChildren, roots, roots, ih]

theorem childrenOf?_mapChildren_self (a : α) (g : Forest α → Forest α) (f : Forest α) :
    childrenOf? a (mapChildren a g f) = (childrenOf? a f).map g := by
  induction f with
  | nil => rfl
  | node b children siblings ihc ihs =>
      by_cases same : b = a
      · simp [mapChildren, childrenOf?, same]
      · simp only [mapChildren, childrenOf?, same, if_false, ihc, ihs]
        cases childrenOf? a children <;> rfl

theorem mapChildren_eq_self {a : α} {g : Forest α → Forest α} {f c : Forest α} (distinct : f.toList.Nodup)
    (found : childrenOf? a f = some c) (same : g c = c) : mapChildren a g f = f := by
  induction f with
  | nil => rfl
  | node b children siblings ihc ihs =>
      obtain ⟨⟨_, absent'⟩, nc, ns, apart⟩ := nodup_node.mp distinct
      simp only [childrenOf?] at found
      split at found
      case isTrue here =>
        obtain rfl := Option.some.inj found
        subst here
        rw [mapChildren, if_pos rfl, same, mapChildren_of_not_mem absent']
      case isFalse other =>
        rw [mapChildren, if_neg other]
        rcases Option.or_eq_some_iff.mp found with inside | ⟨missing, after⟩
        · have ha := (childrenOf?_sublist inside).subset List.mem_cons_self
          rw [ihc nc inside, mapChildren_of_not_mem fun mem => apart ha mem]
        · rw [ihs ns after, mapChildren_of_not_mem (childrenOf?_eq_none.mp missing)]

/-- The children of a label that is not the changed one, where the change does not matter to them. -/
theorem childrenOf?_mapChildren_of_inner {a b : α} {g : Forest α → Forest α} {f : Forest α}
    (other : b ≠ a) (inner : ∀ c, childrenOf? a f = some c →
      childrenOf? b (g c) = (childrenOf? b c).map (mapChildren a g))
    (distinct : f.toList.Nodup) :
    childrenOf? b (mapChildren a g f) = (childrenOf? b f).map (mapChildren a g) := by
  induction f with
  | nil => rfl
  | node c children siblings ihc ihs =>
      obtain ⟨⟨absent, absent'⟩, nc, ns, apart⟩ := nodup_node.mp distinct
      by_cases here : c = a
      · subst here
        have same : (childrenOf? b siblings).map (mapChildren c g) = childrenOf? b siblings := by
          cases found : childrenOf? b siblings with
          | none => rfl
          | some d =>
              have : c ∉ d.toList := fun mem => absent' (childrenOf?_subset found mem)
              rw [Option.map_some, mapChildren_of_not_mem this]
        simp only [mapChildren, childrenOf?, Ne.symm other, if_true, if_false]
        rw [inner children (by rw [childrenOf?, if_pos rfl]), mapChildren_of_not_mem absent']
        cases childrenOf? b children with
        | none => exact same.symm
        | some d => rfl
      · have inChildren := ihc (fun d found => inner d (by simp [childrenOf?, here, found])) nc
        have inSiblings : childrenOf? b (mapChildren a g siblings) =
            (childrenOf? b siblings).map (mapChildren a g) := by
          refine ihs (fun d found => inner d ?_) ns
          have : a ∉ children.toList := fun mem =>
            apart mem ((childrenOf?_sublist found).subset List.mem_cons_self)
          simp [childrenOf?, here, childrenOf?_eq_none.mpr this, found]
        by_cases same : c = b
        · simp [mapChildren, childrenOf?, same, other]
        · simp only [mapChildren, childrenOf?, here, same, if_false, inChildren, inSiblings]
          cases childrenOf? b children <;> rfl

/-- The children of a label that is neither changed nor below the change, before or after it, with the
change made to them. -/
theorem childrenOf?_mapChildren {a b : α} {g : Forest α → Forest α} {f : Forest α} (other : b ≠ a)
    (outside : ∀ c, childrenOf? a f = some c → b ∉ c.toList ∧ b ∉ (g c).toList)
    (distinct : f.toList.Nodup) :
    childrenOf? b (mapChildren a g f) = (childrenOf? b f).map (mapChildren a g) := by
  refine childrenOf?_mapChildren_of_inner other (fun c found => ?_) distinct
  obtain ⟨before, after⟩ := outside c found
  rw [childrenOf?_eq_none.mpr before, childrenOf?_eq_none.mpr after, Option.map_none]

/-- What the change takes from the children and what it puts in their place. -/
theorem perm_mapChildren {a : α} {g : Forest α → Forest α} {f c : Forest α}
    (distinct : f.toList.Nodup) (h : childrenOf? a f = some c) :
    ((mapChildren a g f).toList ++ c.toList).Perm (f.toList ++ (g c).toList) := by
  induction f with
  | nil => simp [childrenOf?] at h
  | node b children siblings ihc ihs =>
      obtain ⟨⟨absent, absent'⟩, nc, ns, apart⟩ := nodup_node.mp distinct
      simp only [childrenOf?] at h
      split at h
      case isTrue same =>
        obtain rfl := Option.some.inj h
        subst same
        simp only [mapChildren, if_true, mapChildren_of_not_mem absent', toList, List.cons_append]
        exact (perm_append_between List.perm_append_comm siblings.toList).cons _
      case isFalse other =>
        simp only [mapChildren, other, if_false, toList, List.cons_append]
        refine List.Perm.cons _ ?_
        rcases Option.or_eq_some_iff.mp h with inside | ⟨_, after⟩
        · have ha := (childrenOf?_sublist inside).subset List.mem_cons_self
          rw [mapChildren_of_not_mem fun mem => apart ha mem]
          exact perm_append_between (ihc nc inside) siblings.toList
        · have ha := (childrenOf?_sublist after).subset List.mem_cons_self
          rw [mapChildren_of_not_mem fun mem => apart mem ha, List.append_assoc, List.append_assoc]
          exact (ihs ns after).append_left _

/-- New last children of a label, wherever in the forest it is. -/
theorem perm_mapChildren_append {a : α} {f : Forest α} (distinct : f.toList.Nodup)
    (mem : a ∈ f.toList) (l : List α) :
    (mapChildren a (fun c => c.append (ofRoots l)) f).toList.Perm (f.toList ++ l) := by
  obtain ⟨c, found⟩ := exists_childrenOf? mem
  have grown := perm_mapChildren (g := fun c => c.append (ofRoots l)) distinct found
  rw [toList_append, toList_ofRoots, ← List.append_assoc] at grown
  refine (List.perm_append_right_iff c.toList).mp (grown.trans ?_)
  rw [List.append_assoc, List.append_assoc]
  exact List.perm_append_comm.append_left _

section mapChildren

variable {a b : α} {g : Forest α → Forest α} {f : Forest α}

theorem mem_of_mapChildren (hg : ∀ c : Forest α, b ∈ (g c).toList → b ∈ c.toList)
    (h : b ∈ (mapChildren a g f).toList) : b ∈ f.toList := by
  induction f with
  | nil => exact h
  | node c children siblings ihc ihs =>
      simp only [mapChildren, toList, List.mem_cons, List.mem_append] at h ⊢
      refine h.imp_right (Or.imp ?_ ihs)
      split
      · exact hg children
      · exact ihc

/-- A change that puts nothing above a label leaves it below only what it was below. -/
theorem Below.of_mapChildren {x : α} (hm : ∀ c : Forest α, b ∈ (g c).toList → b ∈ c.toList)
    (hb : ∀ c : Forest α, (g c).Below x b → c.Below x b) (h : (mapChildren a g f).Below x b) :
    f.Below x b := by
  induction f with
  | nil => exact h
  | node c children siblings ihc ihs =>
      simp only [mapChildren, Below] at h ⊢
      refine h.imp (And.imp_right ?_) (Or.imp ?_ ihs)
      · split
        · exact hm children
        · exact mem_of_mapChildren hm
      · split
        · exact hb children
        · exact ihc

/-- Changed children leave the other labels in their order. -/
theorem filter_mapChildren_sublist {p : α → Bool}
    (shrinks : ∀ c, ((g c).toList.filter p).Sublist c.toList) (f : Forest α) :
    ((mapChildren a g f).toList.filter p).Sublist f.toList := by
  induction f with
  | nil => exact .slnil
  | node b children siblings ihc ihs =>
      have inside : ((if b = a then g children else mapChildren a g children).toList.filter p).Sublist
          children.toList := by
        split
        · exact shrinks children
        · exact ihc
      rw [mapChildren, toList, toList, List.filter_cons, List.filter_append]
      split
      · exact (inside.append ihs).cons_cons b
      · exact (inside.append ihs).cons b

end mapChildren

/-! ## Moved trees -/

theorem perm_takeRoot? {a : α} {f c rest : Forest α} (h : takeRoot? a f = some (c, rest)) :
    f.toList.Perm (a :: c.toList ++ rest.toList) := by
  induction f generalizing rest with
  | nil => simp [takeRoot?] at h
  | node b children siblings _ ih =>
      simp only [takeRoot?] at h
      split at h
      case isTrue same =>
        obtain ⟨rfl, rfl⟩ := Prod.mk.inj (Option.some.inj h)
        rw [same]
        exact List.Perm.refl _
      case isFalse =>
        obtain ⟨⟨taken, others⟩, found, made⟩ := Option.map_eq_some_iff.mp h
        obtain ⟨rfl, rfl⟩ := Prod.mk.inj made
        calc b :: (children.toList ++ siblings.toList)
          _ |>.Perm (b :: children.toList ++ (a :: taken.toList ++ others.toList)) :=
            (ih found).append_left (b :: children.toList)
          _ |>.Perm (a :: taken.toList ++ (b :: children.toList ++ others.toList)) :=
            List.perm_append_comm_assoc ..

theorem perm_insertRoot? {side : Side} {a b : α} {c f g : Forest α}
    (h : insertRoot? side a c b f = some g) : g.toList.Perm (a :: c.toList ++ f.toList) := by
  induction f generalizing g with
  | nil => simp [insertRoot?] at h
  | node d children siblings _ ih =>
      simp only [insertRoot?] at h
      split at h
      case isTrue =>
        cases side with
        | before =>
            obtain rfl := Option.some.inj h
            exact List.Perm.refl _
        | after =>
            obtain rfl := Option.some.inj h
            exact List.perm_append_comm_assoc (d :: children.toList) (a :: c.toList) siblings.toList
      case isFalse =>
        obtain ⟨rest, found, rfl⟩ := Option.map_eq_some_iff.mp h
        calc d :: (children.toList ++ rest.toList)
          _ |>.Perm (d :: children.toList ++ (a :: c.toList ++ siblings.toList)) :=
            (ih found).append_left (d :: children.toList)
          _ |>.Perm (a :: c.toList ++ (d :: children.toList ++ siblings.toList)) :=
            List.perm_append_comm_assoc ..

theorem perm_moveRoot? {side : Side} {a b : α} {f g : Forest α} (h : moveRoot? side a b f = some g) :
    g.toList.Perm f.toList := by
  obtain ⟨⟨below, rest⟩, taken, put⟩ := Option.bind_eq_some_iff.mp h
  exact (perm_insertRoot? put).trans (perm_takeRoot? taken).symm

theorem perm_move? {side : Side} {a b : α} {f g : Forest α} (h : move? side a b f = some g) :
    g.toList.Perm f.toList := by
  induction f generalizing g with
  | nil => simp [move?] at h
  | node c children siblings ihc ihs =>
      simp only [move?] at h
      split at h
      case h_1 moved found =>
        obtain rfl := Option.some.inj h
        have inner : moved.toList.Perm children.toList := by
          rcases Option.or_eq_some_iff.mp found with here | ⟨_, deeper⟩
          · exact perm_moveRoot? here
          · exact ihc deeper
        exact (inner.append_right _).cons _
      case h_2 =>
        obtain ⟨rest, found, rfl⟩ := Option.map_eq_some_iff.mp h
        exact ((ihs found).append_left _).cons _

end SvgForm.Forest
