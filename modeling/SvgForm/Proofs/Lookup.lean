import Mathlib.Data.List.Nodup
/-! # Looking up keys

What is looked up in a row of keys and values is the value of the first entry with the key. Where the keys differ,
any entry is the one that is found.
-/

namespace SvgForm

variable {α β : Type} [BEq α] [LawfulBEq α] {l : List (α × β)} {a : α} {b : β}

theorem lookup_cons_eq [DecidableEq α] (a : α) (b : β) (l : List (α × β)) (a' : α) :
    ((a, b) :: l).lookup a' = if a' = a then some b else l.lookup a' := by
  rw [List.lookup_cons]
  by_cases same : a' = a
  · simp [same]
  · simp [same, beq_false_of_ne same]

theorem lookup_eq_some_iff (distinct : (l.map Prod.fst).Nodup) : l.lookup a = some b ↔ (a, b) ∈ l := by
  induction l with
  | nil => simp
  | cons e l ih =>
      obtain ⟨k, v⟩ := e
      obtain ⟨absent, distinct⟩ := List.nodup_cons.mp distinct
      by_cases here : a = k
      · subst here
        have other : (a, b) ∉ l := fun mem => absent (List.mem_map.mpr ⟨(a, b), mem, rfl⟩)
        simp [other, eq_comm]
      · rw [List.lookup_cons, beq_false_of_ne here]
        simp [ih distinct, here]

theorem lookup_eq_none_iff : l.lookup a = none ↔ a ∉ l.map Prod.fst := by
  induction l with
  | nil => simp
  | cons e l ih =>
      obtain ⟨k, v⟩ := e
      by_cases here : a = k
      · simp [here]
      · rw [List.lookup_cons, beq_false_of_ne here]
        simp [ih, here]

end SvgForm
