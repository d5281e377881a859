import Mathlib.Data.Nat.Nth
import SvgForm.Proofs.Identity.Keys
/-! # Which number an occurrence gets

Where all keys are reserved, what a claim gives hangs on its own key only: the first claim of a key gives the
key, and every later one the next number with which the key is not reserved. Keys that were handed out for
other keys never stand in the way.
-/

namespace SvgForm.UniqueKeys

/-- The search for a free occurrence of a key, from one number on, ends at another. -/
inductive SearchEnds (u : UniqueKeys) (key : String) : Nat → Nat → Prop
  | here {n : Nat} (free : u.blocks key n = false) : SearchEnds u key n n
  | later {n m : Nat} (blocked : u.blocks key n = true) (rest : SearchEnds u key (n + 1) m) :
    SearchEnds u key n m

/-- A number that may follow a key that was handed out before. -/
def Unreserved (reserved : List String) (key : String) (n : Nat) : Prop :=
  2 ≤ n ∧ disambiguate key n ∉ reserved

instance (reserved : List String) (key : String) : DecidablePred (Unreserved reserved key) :=
  fun _ => inferInstanceAs (Decidable (_ ∧ _))

/-- The number of the occurrence that a claim gives after `earlier` claims of the same key. -/
noncomputable def occurrence (reserved : List String) (key : String) : (earlier : Nat) → Nat
  | 0 => 1
  | earlier + 1 => Nat.nth (Unreserved reserved key) earlier

variable {reserved issued claimed keys : List String} {key other : String} {u : UniqueKeys}

/-! ## Numbers of occurrences -/

theorem unreserved_infinite (reserved : List String) (key : String) :
    {n | Unreserved reserved key n}.Infinite := by
  refine Set.infinite_of_forall_exists_gt fun n => ?_
  have start : 1 ≤ n + 2 := by omega
  obtain ⟨k, _, free⟩ := exists_free { reserved } key start
  refine ⟨n + 2 + k, ⟨by omega, fun mem => ?_⟩, by omega⟩
  have taken : Taken reserved [] key (n + 2 + k) := .inr ⟨by omega, mem⟩
  rw [(blocks_iff { reserved } key _).mpr taken] at free
  cases free

theorem unreserved_nth (reserved : List String) (key : String) (i : Nat) :
    Unreserved reserved key (Nat.nth (Unreserved reserved key) i) :=
  Nat.nth_mem_of_infinite (unreserved_infinite reserved key) i

theorem occurrence_pos (reserved : List String) (key : String) (i : Nat) :
    1 ≤ occurrence reserved key i := by
  cases i with
  | zero => exact Nat.le_refl 1
  | succ i => exact Nat.le_of_succ_le (unreserved_nth reserved key i).1

/-- Every number below that of an occurrence is reserved or that of an earlier occurrence. -/
theorem exists_occurrence_eq {i m : Nat} (pos : 1 ≤ m) (less : m < occurrence reserved key i)
    (free : 1 < m → disambiguate key m ∉ reserved) : ∃ j < i, occurrence reserved key j = m := by
  cases i with
  | zero =>
      simp only [occurrence] at less
      omega
  | succ i =>
      rcases Nat.eq_or_lt_of_le pos with one | many
      · exact ⟨0, by omega, one⟩
      · have unreserved : Unreserved reserved key m := ⟨many, free many⟩
        refine ⟨Nat.count (Unreserved reserved key) m + 1, ?_, Nat.nth_count unreserved⟩
        have before : Nat.nth (Unreserved reserved key) (Nat.count (Unreserved reserved key) m) <
            Nat.nth (Unreserved reserved key) i := by
          rwa [Nat.nth_count unreserved]
        have := (Nat.nth_lt_nth (unreserved_infinite reserved key)).mp before
        omega

theorem not_mem_of_eq_later {i : Nat} (same : other = disambiguate key (occurrence reserved key (i + 1))) :
    other ∉ reserved := by
  rw [same]
  exact (unreserved_nth reserved key i).2

/-- Occurrences of reserved keys have different forms, for a later one is no key. -/
theorem occurrence_inj {i j : Nat} (hk : key ∈ reserved) (ho : other ∈ reserved)
    (same : disambiguate key (occurrence reserved key i) =
      disambiguate other (occurrence reserved other j)) : key = other ∧ i = j := by
  cases i with
  | zero =>
      cases j with
      | zero => exact ⟨same, rfl⟩
      | succ j => exact absurd hk (not_mem_of_eq_later same)
  | succ i =>
      cases j with
      | zero => exact absurd ho (not_mem_of_eq_later same.symm)
      | succ j =>
          obtain ⟨rfl, numbers⟩ := disambiguate_inj (unreserved_nth reserved key i).1
            (unreserved_nth reserved other j).1 same
          have := Nat.nth_injective (unreserved_infinite reserved key) numbers
          exact ⟨rfl, by omega⟩

/-! ## One claim -/

/-- The state after claims of reserved keys: what was handed out are their occurrences so far. -/
structure After (reserved claimed : List String) (u : UniqueKeys) : Prop where
  reserved_eq : u.reserved = reserved
  settled : u.Settled
  issued : ∀ form, form ∈ u.issued ↔
    ∃ key i, i < claimed.count key ∧ form = disambiguate key (occurrence reserved key i)

theorem after_start (reserved : List String) : After reserved [] { reserved } :=
  ⟨rfl, settled_start reserved, by simp⟩

theorem After.firstFree (after : After reserved claimed u) (within : claimed ⊆ reserved)
    (hk : key ∈ reserved) :
    FirstFree u.reserved u.issued key (occurrence reserved key (claimed.count key)) := by
  refine ⟨occurrence_pos reserved key _, ?_, ?_⟩
  · rintro (issued | ⟨many, taken⟩)
    · obtain ⟨other, i, less, same⟩ := (after.issued _).mp issued
      have ho : other ∈ reserved := within (List.count_pos_iff.mp (by omega))
      obtain ⟨rfl, rfl⟩ := occurrence_inj hk ho same
      exact absurd less (Nat.lt_irrefl _)
    · rw [after.reserved_eq] at taken
      cases count : claimed.count key with
      | zero =>
          rw [count, occurrence] at many
          exact absurd many (Nat.lt_irrefl 1)
      | succ i =>
          rw [count] at taken
          exact (unreserved_nth reserved key i).2 taken
  · intro m pos less
    by_cases free : 1 < m → disambiguate key m ∉ reserved
    · obtain ⟨j, earlier, rfl⟩ := exists_occurrence_eq pos less free
      exact .inl ((after.issued _).mpr ⟨key, j, earlier, rfl⟩)
    · rw [Classical.not_imp, not_not] at free
      rw [after.reserved_eq]
      exact .inr free

theorem After.claim_fst (after : After reserved claimed u) (within : claimed ⊆ reserved)
    (hk : key ∈ reserved) :
    (u.claim key).1 = disambiguate key (occurrence reserved key (claimed.count key)) := by
  obtain ⟨n, first, made⟩ := claim_firstFree after.settled key
  rw [made, first.unique (after.firstFree within hk)]

theorem After.claim (after : After reserved claimed u) (within : claimed ⊆ reserved)
    (hk : key ∈ reserved) : After reserved (claimed ++ [key]) (u.claim key).2 := by
  have given := after.claim_fst within hk
  have settled := after.settled.claim key
  obtain ⟨n, _, made⟩ := claim_firstFree after.settled key
  rw [made] at given settled ⊢
  refine ⟨after.reserved_eq, settled, fun form => ?_⟩
  simp only at given ⊢
  rw [List.mem_cons, after.issued, given]
  constructor
  · rintro (rfl | ⟨other, i, less, rfl⟩)
    · exact ⟨key, claimed.count key, by simp, rfl⟩
    · exact ⟨other, i, by rw [List.count_append]; omega, rfl⟩
  · rintro ⟨other, i, less, rfl⟩
    rw [List.count_append] at less
    by_cases earlier : i < claimed.count other
    · exact .inr ⟨other, i, earlier, rfl⟩
    · have same : other = key := by
        by_contra different
        rw [List.count_singleton, if_neg (by simpa using Ne.symm different)] at less
        omega
      subst same
      rw [List.count_singleton_self] at less
      exact .inl (by rw [show i = claimed.count other by omega])

theorem searchEnds_of_blocked {start n : Nat} (le : start ≤ n) (free : u.blocks key n = false)
    (blocked : ∀ m, start ≤ m → m < n → u.blocks key m = true) : SearchEnds u key start n := by
  induction le using Nat.decreasingInduction with
  | self => exact .here free
  | of_succ start less ih =>
      exact .later (blocked start (Nat.le_refl start) less)
        (ih fun m le lt => blocked m (Nat.le_of_succ_le le) lt)

/-- The search of a claim starts after the last occurrence of its key, and ends. -/
theorem After.searchEnds (after : After reserved claimed u) (within : claimed ⊆ reserved)
    (hk : key ∈ reserved) :
    SearchEnds u key (u.count key + 1) (occurrence reserved key (claimed.count key)) := by
  have first := after.firstFree within hk
  refine searchEnds_of_blocked ?_ ?_ fun m le lt => (blocks_iff u key m).mpr (first.least m (by omega) lt)
  · by_contra counted
    exact first.free (after.settled key _ first.pos (by omega))
  · rw [Bool.eq_false_iff, ne_eq, blocks_iff]
    exact first.free

/-! ## A row of claims -/

theorem After.claimAll (after : After reserved claimed u) (within : claimed ⊆ reserved)
    (inside : keys ⊆ reserved) : After reserved (claimed ++ keys) (u.claimAll keys).2 ∧
      (u.claimAll keys).1 = keys.mapIdx fun i key =>
        disambiguate key (occurrence reserved key ((claimed ++ keys.take i).count key)) := by
  induction keys generalizing claimed u with
  | nil => simpa [UniqueKeys.claimAll] using after
  | cons key keys ih =>
      obtain ⟨hk, rest⟩ := List.cons_subset.mp inside
      have given := after.claim_fst within hk
      obtain ⟨later, forms⟩ := ih (after.claim within hk)
        (List.append_subset.mpr ⟨within, by simpa using hk⟩) rest
      rw [List.append_assoc] at later
      refine ⟨later, ?_⟩
      simp only [UniqueKeys.claimAll, given, forms, List.mapIdx_cons, List.take_zero, List.append_nil,
        List.take_succ_cons, List.append_assoc, List.cons_append, List.nil_append]

theorem claimAll_eq_mapIdx (known : keys ⊆ reserved) : (claimAll { reserved } keys).1 =
    keys.mapIdx fun i key => disambiguate key (occurrence reserved key ((keys.take i).count key)) := by
  simpa using ((after_start reserved).claimAll (List.nil_subset _) known).2

theorem occurrences_nodup (inside : keys ⊆ reserved) : (keys.mapIdx fun i key =>
    disambiguate key (occurrence reserved key ((keys.take i).count key))).Nodup := by
  refine List.pairwise_iff_getElem.mpr fun i j hi hj less same => ?_
  simp only [List.length_mapIdx] at hi hj
  simp only [List.getElem_mapIdx] at same
  obtain ⟨sameKey, sameCount⟩ :=
    occurrence_inj (inside (List.getElem_mem hi)) (inside (List.getElem_mem hj)) same
  have prefixed : keys.take (i + 1) <+: keys.take j := List.take_prefix_take_left less
  have more := prefixed.sublist.count_le keys[i]
  rw [List.take_succ_eq_append_getElem hi, List.count_append, List.count_singleton_self] at more
  rw [← sameKey] at sameCount
  omega

/-- The closed form of claims of reserved keys. Each search ends at the number that the claim gives, and no
two claims give the same. -/
theorem claimAll_eq_occurrences (known : keys ⊆ reserved) :
    (claimAll { reserved } keys).1 = keys.mapIdx (fun i key =>
        disambiguate key (occurrence reserved key ((keys.take i).count key))) ∧
      (∀ i key, keys[i]? = some key →
        SearchEnds (claimAll { reserved } (keys.take i)).2 key
          ((claimAll { reserved } (keys.take i)).2.count key + 1)
          (occurrence reserved key ((keys.take i).count key))) ∧
      (claimAll { reserved } keys).1.Nodup := by
  have forms := ((after_start reserved).claimAll (List.nil_subset _) known).2
  simp only [List.nil_append] at forms
  refine ⟨forms, fun i key here => ?_, by rw [forms]; exact occurrences_nodup known⟩
  have earlier : keys.take i ⊆ reserved := fun k mem => known (List.mem_of_mem_take mem)
  have after := ((after_start reserved).claimAll (List.nil_subset _) earlier).1
  rw [List.nil_append] at after
  exact after.searchEnds earlier (known (List.mem_of_getElem? here))

/-- Two keys of which one is a numbered form of the other, and a reserved form in between. -/
theorem numbered_keys_occurrences :
    ["x", "x_2", "x", "x", "x_2"] ⊆ ["x", "x_2", "x_4"] ∧
      occurrence ["x", "x_2", "x_4"] "x" 2 = 5 ∧
      (claimAll { reserved := ["x", "x_2", "x_4"] } ["x", "x_2", "x", "x", "x_2"]).1 =
        ["x", "x_2", "x_3", "x_5", "x_2_2"] ∧
      SearchEnds (claimAll { reserved := ["x", "x_2", "x_4"] } ["x", "x_2", "x"]).2 "x" 4 5 ∧
      (claimAll { reserved := ["x", "x_2", "x_4"] } ["x", "x_2", "x", "x", "x_2"]).1.Nodup := by
  have known : ["x", "x_2", "x", "x", "x_2"] ⊆ ["x", "x_2", "x_4"] := by decide
  have fifth : occurrence ["x", "x_2", "x_4"] "x" 2 = 5 :=
    Nat.nth_count (p := Unreserved ["x", "x_2", "x_4"] "x") (n := 5) (by decide)
  obtain ⟨_, ends, distinct⟩ := claimAll_eq_occurrences known
  refine ⟨known, fifth, by decide, ?_, distinct⟩
  have search := ends 3 "x" rfl
  have counted : (["x", "x_2", "x", "x", "x_2"].take 3).count "x" = 2 := by decide
  rwa [counted, fifth] at search

end SvgForm.UniqueKeys
