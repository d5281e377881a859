import SvgForm.Proofs.Forest.Move
/-! # Rows of children

Where no label occurs twice, a tree in a forest is a label with its row of children. The rows are what is left
of them when one is taken out of its place, and what they were when one grows.
-/

namespace SvgForm.Forest

variable {α : Type} [DecidableEq α] {a b : α} {c f : Forest α}

theorem anyTree_of_childrenOf? {p : α → Forest α → Prop} (found : childrenOf? a f = some c) (holds : p a c) :
    f.AnyTree p := by
  induction f with
  | nil => cases found
  | node x children siblings ihc ihs =>
      rw [childrenOf?] at found
      split at found
      case isTrue same =>
          obtain rfl := Option.some.inj found
          subst same
          exact .inl holds
      case isFalse =>
          rcases Option.or_eq_some_iff.mp found with inside | ⟨_, after⟩
          · exact .inr (.inl (ihc inside))
          · exact .inr (.inr (ihs after))

/-- Where no label occurs twice, a tree is its label and the children of that. -/
theorem anyTree_iff {p : α → Forest α → Prop} (distinct : f.toList.Nodup) :
    f.AnyTree p ↔ ∃ a c, childrenOf? a f = some c ∧ p a c := by
  constructor
  · intro tree
    induction f with
    | nil => exact tree.elim
    | node x children siblings ihc ihs =>
        obtain ⟨⟨absent, absent'⟩, nc, ns, apart⟩ := nodup_node.mp distinct
        rcases tree with here | inside | after
        · exact ⟨x, children, by rw [childrenOf?, if_pos rfl], here⟩
        · obtain ⟨a, c, found, holds⟩ := ihc nc inside
          have mem := (childrenOf?_sublist found).subset List.mem_cons_self
          have other : x ≠ a := by
            rintro rfl
            exact absent mem
          exact ⟨a, c, by rw [childrenOf?, if_neg other, found, Option.some_or], holds⟩
        · obtain ⟨a, c, found, holds⟩ := ihs ns after
          have mem := (childrenOf?_sublist found).subset List.mem_cons_self
          have other : x ≠ a := by
            rintro rfl
            exact absent' mem
          have outside := childrenOf?_eq_none.mpr fun inside => apart inside mem
          exact ⟨a, c, by rw [childrenOf?, if_neg other, outside, Option.none_or, found], holds⟩
  · rintro ⟨a, c, found, holds⟩
    exact anyTree_of_childrenOf? found holds

theorem AnyTree.outward {p : α → Forest α → Prop} (found : childrenOf? a f = some c) (tree : c.AnyTree p) :
    f.AnyTree p := by
  induction f with
  | nil => cases found
  | node x children siblings ihc ihs =>
      rw [childrenOf?] at found
      split at found
      case isTrue =>
          obtain rfl := Option.some.inj found
          exact .inr (.inl tree)
      case isFalse =>
          rcases Option.or_eq_some_iff.mp found with inside | ⟨_, after⟩
          · exact .inr (.inl (ihc inside))
          · exact .inr (.inr (ihs after))

/-- What is below a label has the children there that it has in the whole forest. -/
theorem childrenOf?_inside (distinct : f.toList.Nodup) (found : childrenOf? a f = some c)
    (mem : b ∈ c.toList) : childrenOf? b f = childrenOf? b c := by
  obtain ⟨row, inside⟩ := exists_childrenOf? mem
  have tree : f.AnyTree fun l r => l = b ∧ r = row :=
    .outward found (anyTree_of_childrenOf? inside ⟨rfl, rfl⟩)
  obtain ⟨_, _, outside, rfl, rfl⟩ := (anyTree_iff distinct).mp tree
  rw [inside, outside]

/-- The children of a label once those of another, or of the label itself, were taken away from under it and
put beside the forest. -/
theorem childrenOf?_cut (distinct : f.toList.Nodup) (found : childrenOf? a f = some c) (b : α) :
    childrenOf? b ((mapChildren a (fun _ => nil) f).append c) =
      if b = a then some nil else (childrenOf? b f).map (mapChildren a fun _ => nil) := by
  have cut := perm_mapChildren (g := fun _ => nil) distinct found
  rw [toList, List.append_nil] at cut
  have apart := (List.nodup_append'.mp (cut.nodup_iff.mpr distinct)).2.2
  rw [childrenOf?_append]
  split
  case isTrue same =>
      subst same
      rw [childrenOf?_mapChildren_self, found, Option.map_some, Option.some_or]
  case isFalse other =>
      by_cases mem : b ∈ c.toList
      · have gone : b ∉ (mapChildren a (fun _ => nil) f).toList := fun still => apart still mem
        rw [childrenOf?_eq_none.mpr gone, Option.none_or, childrenOf?_inside distinct found mem]
        obtain ⟨row, inside⟩ := exists_childrenOf? mem
        have above : a ∉ row.toList := by
          intro under
          have within := (childrenOf?_sublist found).nodup distinct
          exact (List.nodup_cons.mp within).1 (childrenOf?_subset inside under)
        rw [inside, Option.map_some, mapChildren_of_not_mem above]
      · rw [childrenOf?_mapChildren other _ distinct, childrenOf?_eq_none.mpr mem, Option.or_none]
        intro c' found'
        obtain rfl := Option.some.inj (found.symm.trans found')
        exact ⟨mem, List.not_mem_nil⟩

/-- The children of a label once another one got new last children. -/
theorem childrenOf?_grown {l : List α} (distinct : f.toList.Nodup) (other : b ≠ a) (old : b ∉ l) :
    childrenOf? b (mapChildren a (fun c => c.append (ofRoots l)) f) =
      (childrenOf? b f).map (mapChildren a fun c => c.append (ofRoots l)) := by
  apply childrenOf?_mapChildren_of_inner other _ distinct
  intro c found
  have new : childrenOf? b (ofRoots l) = none := childrenOf?_eq_none.mpr (by rwa [toList_ofRoots])
  rw [childrenOf?_append, new, Option.or_none]
  cases inside : childrenOf? b c with
  | none => rfl
  | some row =>
      have above : a ∉ row.toList := by
        intro under
        have within := (childrenOf?_sublist found).nodup distinct
        exact (List.nodup_cons.mp within).1 (childrenOf?_subset inside under)
      rw [Option.map_some, mapChildren_of_not_mem above]

/-- What is below a label that is below another is below that one. -/
theorem Below.trans {x : α} (distinct : f.toList.Nodup) (first : f.Below a b) (second : f.Below b x) :
    f.Below a x := by
  obtain ⟨row, found⟩ := exists_childrenOf? first.mem_left
  obtain ⟨row', found'⟩ := exists_childrenOf? second.mem_left
  rw [below_iff_mem distinct found] at first ⊢
  rw [below_iff_mem distinct found'] at second
  rw [childrenOf?_inside distinct found first] at found'
  exact childrenOf?_subset found' second

end SvgForm.Forest
