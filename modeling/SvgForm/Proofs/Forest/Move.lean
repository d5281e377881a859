import SvgForm.Proofs.Forest
/-! # Moves among siblings

A tree can be moved next to another just if both are children of one tree. The move changes the order of
these children only: what is below what, and what stands beside what, is as it was, and the same move made
again changes nothing.
-/

namespace SvgForm.Forest

variable {α : Type} {side : Side} {a b x y : α} {c f g rest : Forest α}

theorem eq_nil_of_roots (none : f.roots = []) : f = .nil := by
  cases f with
  | nil => rfl
  | node a children siblings => cases none

theorem eq_nil_of_forall_not_mem (none : ∀ b, b ∉ f.toList) : f = .nil := by
  cases f with
  | nil => rfl
  | node a children siblings => exact absurd List.mem_cons_self (none a)

/-! ## Properties of some tree -/

/-- Whether some tree in the forest has a property, of its label and its children. -/
def AnyTree (p : α → Forest α → Prop) : Forest α → Prop
  | nil => False
  | node a children siblings => p a children ∨ AnyTree p children ∨ AnyTree p siblings

/-- Whether both are children of one tree. -/
def Siblings (a b : α) : Forest α → Prop :=
  AnyTree fun _ children => a ∈ children.roots ∧ b ∈ children.roots

theorem below_iff_anyTree :
    f.Below x y ↔ f.AnyTree fun a children => x = a ∧ y ∈ children.toList := by
  induction f with
  | nil => exact Iff.rfl
  | node a children siblings ihc ihs => rw [Below, AnyTree, ihc, ihs]

variable [DecidableEq α]

/-! ## Taking a tree out of a row and putting it in -/

theorem isSome_takeRoot? : (takeRoot? a f).isSome ↔ a ∈ f.roots := by
  induction f with
  | nil => simp [takeRoot?, roots]
  | node b children siblings _ ih =>
      rw [takeRoot?, roots, List.mem_cons]
      by_cases here : b = a
      · simp [here]
      · simp [here, ih, Ne.symm here]

theorem isSome_insertRoot? : (insertRoot? side a c b f).isSome ↔ b ∈ f.roots := by
  induction f with
  | nil => simp [insertRoot?, roots]
  | node d children siblings _ ih =>
      simp only [insertRoot?, roots, List.mem_cons]
      by_cases here : d = b
      · cases side <;> simp [here]
      · simp [here, ih, Ne.symm here]

theorem roots_takeRoot? (taken : takeRoot? a f = some (c, rest)) : f.roots.Perm (a :: rest.roots) := by
  induction f generalizing rest with
  | nil => simp [takeRoot?] at taken
  | node b children siblings _ ih =>
      rw [takeRoot?] at taken
      split at taken
      case isTrue same =>
        obtain ⟨rfl, rfl⟩ := Prod.mk.inj (Option.some.inj taken)
        rw [same]
        exact List.Perm.refl _
      case isFalse =>
        obtain ⟨⟨below, others⟩, found, made⟩ := Option.map_eq_some_iff.mp taken
        obtain ⟨rfl, rfl⟩ := Prod.mk.inj made
        exact ((ih found).cons b).trans (List.Perm.swap a b others.roots)

theorem roots_insertRoot? (put : insertRoot? side a c b f = some g) : g.roots.Perm (a :: f.roots) := by
  induction f generalizing g with
  | nil => simp [insertRoot?] at put
  | node d children siblings _ ih =>
      simp only [insertRoot?] at put
      split at put
      case isTrue =>
        cases side with
        | before =>
            obtain rfl := Option.some.inj put
            exact List.Perm.refl _
        | after =>
            obtain rfl := Option.some.inj put
            exact List.Perm.swap a d siblings.roots
      case isFalse =>
        obtain ⟨others, found, rfl⟩ := Option.map_eq_some_iff.mp put
        exact ((ih found).cons d).trans (List.Perm.swap a d siblings.roots)

theorem anyTree_takeRoot? {p : α → Forest α → Prop} (taken : takeRoot? a f = some (c, rest)) :
    f.AnyTree p ↔ p a c ∨ c.AnyTree p ∨ rest.AnyTree p := by
  induction f generalizing rest with
  | nil => simp [takeRoot?] at taken
  | node b children siblings _ ih =>
      rw [takeRoot?] at taken
      split at taken
      case isTrue same =>
        obtain ⟨rfl, rfl⟩ := Prod.mk.inj (Option.some.inj taken)
        rw [same]
        exact Iff.rfl
      case isFalse =>
        obtain ⟨⟨below, others⟩, found, made⟩ := Option.map_eq_some_iff.mp taken
        obtain ⟨rfl, rfl⟩ := Prod.mk.inj made
        simp only [AnyTree, ih found]
        tauto

theorem anyTree_insertRoot? {p : α → Forest α → Prop} (put : insertRoot? side a c b f = some g) :
    g.AnyTree p ↔ p a c ∨ c.AnyTree p ∨ f.AnyTree p := by
  induction f generalizing g with
  | nil => simp [insertRoot?] at put
  | node d children siblings _ ih =>
      simp only [insertRoot?] at put
      split at put
      case isTrue =>
        cases side with
        | before =>
            obtain rfl := Option.some.inj put
            exact Iff.rfl
        | after =>
            obtain rfl := Option.some.inj put
            simp only [AnyTree]
            tauto
      case isFalse =>
        obtain ⟨others, found, rfl⟩ := Option.map_eq_some_iff.mp put
        simp only [AnyTree, ih found]
        tauto

theorem takeRoot?_insertRoot? (absent : a ∉ f.roots) (put : insertRoot? side a c b f = some g) :
    takeRoot? a g = some (c, f) := by
  induction f generalizing g with
  | nil => simp [insertRoot?] at put
  | node d children siblings _ ih =>
      rw [roots, List.mem_cons, not_or] at absent
      simp only [insertRoot?] at put
      split at put
      case isTrue =>
        cases side with
        | before =>
            obtain rfl := Option.some.inj put
            simp [takeRoot?]
        | after =>
            obtain rfl := Option.some.inj put
            simp [takeRoot?, Ne.symm absent.1]
      case isFalse =>
        obtain ⟨others, found, rfl⟩ := Option.map_eq_some_iff.mp put
        simp [takeRoot?, Ne.symm absent.1, ih absent.2 found]

/-! ## Moves in a row -/

theorem roots_moveRoot? (moved : moveRoot? side a b f = some g) : g.roots.Perm f.roots := by
  obtain ⟨⟨below, rest⟩, taken, put⟩ := Option.bind_eq_some_iff.mp moved
  exact (roots_insertRoot? put).trans (roots_takeRoot? taken).symm

theorem anyTree_moveRoot? {p : α → Forest α → Prop} (moved : moveRoot? side a b f = some g) :
    g.AnyTree p ↔ f.AnyTree p := by
  obtain ⟨⟨below, rest⟩, taken, put⟩ := Option.bind_eq_some_iff.mp moved
  rw [anyTree_insertRoot? put, anyTree_takeRoot? taken]

theorem isSome_moveRoot? (other : a ≠ b) :
    (moveRoot? side a b f).isSome ↔ a ∈ f.roots ∧ b ∈ f.roots := by
  rw [moveRoot?]
  cases taken : takeRoot? a f with
  | none =>
      have absent : a ∉ f.roots := fun mem => by
        have := isSome_takeRoot?.mpr mem
        rw [taken] at this
        cases this
      simp [absent]
  | some entry =>
      obtain ⟨below, rest⟩ := entry
      have roots := roots_takeRoot? taken
      have mem : b ∈ f.roots ↔ b ∈ rest.roots := by simp [roots.mem_iff, Ne.symm other]
      rw [Option.bind_some, isSome_insertRoot?, mem]
      simp [roots.mem_iff]

theorem moveRoot?_moveRoot? (distinct : f.roots.Nodup) (moved : moveRoot? side a b f = some g) :
    moveRoot? side a b g = some g := by
  obtain ⟨⟨below, rest⟩, taken, put⟩ := Option.bind_eq_some_iff.mp moved
  have absent : a ∉ rest.roots :=
    (List.nodup_cons.mp ((roots_takeRoot? taken).nodup_iff.mp distinct)).1
  rw [moveRoot?, takeRoot?_insertRoot? absent put]
  exact put

/-! ## Moves anywhere -/

/-- The first row is that of no tree, and so no move concerns it. -/
theorem roots_move? (moved : move? side a b f = some g) : g.roots = f.roots := by
  induction f generalizing g with
  | nil => simp [move?] at moved
  | node c children siblings _ ih =>
      rw [move?] at moved
      split at moved
      case h_1 inner _ =>
        obtain rfl := Option.some.inj moved
        rfl
      case h_2 =>
        obtain ⟨others, found, rfl⟩ := Option.map_eq_some_iff.mp moved
        rw [roots, roots, ih found]

theorem isSome_move? (other : a ≠ b) : (move? side a b f).isSome ↔ f.Siblings a b := by
  induction f with
  | nil => simp [move?, Siblings, AnyTree]
  | node c children siblings ihc ihs =>
      have row : (moveRoot? side a b children).isSome ↔ _ := isSome_moveRoot? other
      rw [Siblings, AnyTree, ← row]
      change _ ↔ _ ∨ children.Siblings a b ∨ siblings.Siblings a b
      rw [← ihc, ← ihs, move?]
      cases moveRoot? side a b children <;> cases move? side a b children <;>
        cases move? side a b siblings <;> simp

/-- A move keeps every property of trees that does not hang on the order of their children. -/
theorem anyTree_move? {p : α → Forest α → Prop}
    (fair : ∀ l (c c' : Forest α), c'.toList.Perm c.toList → c'.roots.Perm c.roots → (p l c' ↔ p l c))
    (moved : move? side a b f = some g) : g.AnyTree p ↔ f.AnyTree p := by
  induction f generalizing g with
  | nil => simp [move?] at moved
  | node l children siblings ihc ihs =>
      rw [move?] at moved
      split at moved
      case h_1 inner found =>
        obtain rfl := Option.some.inj moved
        rw [AnyTree, AnyTree]
        rcases Option.or_eq_some_iff.mp found with here | ⟨_, deeper⟩
        · rw [fair l children inner (perm_moveRoot? here) (roots_moveRoot? here), anyTree_moveRoot? here]
        · rw [fair l children inner (perm_move? deeper) (by rw [roots_move? deeper]), ihc deeper]
      case h_2 =>
        obtain ⟨others, found, rfl⟩ := Option.map_eq_some_iff.mp moved
        rw [AnyTree, AnyTree, ihs found]

theorem siblings_move? (moved : move? side a b f = some g) : g.Siblings x y ↔ f.Siblings x y :=
  anyTree_move? (fun _ _ _ _ roots => by rw [roots.mem_iff, roots.mem_iff]) moved

theorem below_move? (moved : move? side a b f = some g) : g.Below x y ↔ f.Below x y := by
  rw [below_iff_anyTree, below_iff_anyTree]
  exact anyTree_move? (fun _ _ _ labels _ => by rw [labels.mem_iff]) moved

theorem move?_move? (distinct : f.toList.Nodup) (other : a ≠ b) (moved : move? side a b f = some g) :
    move? side a b g = some g := by
  induction f generalizing g with
  | nil => simp [move?] at moved
  | node c children siblings ihc ihs =>
      obtain ⟨_, distinctC, distinctS, _⟩ := nodup_node.mp distinct
      rw [move?] at moved
      split at moved
      case h_1 inner found =>
        obtain rfl := Option.some.inj moved
        have again : (moveRoot? side a b inner).or (move? side a b inner) = some inner := by
          -- A row in which no place was found has the same trees after a move further down.
          rcases Option.or_eq_some_iff.mp found with here | ⟨missing, deeper⟩
          · rw [moveRoot?_moveRoot? (distinctC.sublist (roots_sublist children)) here, Option.some_or]
          · have apart : moveRoot? side a b inner = none := by
              have mem : ¬ (moveRoot? side a b children).isSome := by simp [missing]
              rw [isSome_moveRoot? other] at mem
              rwa [← Option.not_isSome_iff_eq_none, isSome_moveRoot? other, roots_move? deeper]
            rw [apart, Option.none_or, ihc distinctC deeper]
        rw [move?, again]
      case h_2 missing =>
        obtain ⟨others, found, rfl⟩ := Option.map_eq_some_iff.mp moved
        rw [move?, missing, ihs distinctS found]
        rfl

end SvgForm.Forest
