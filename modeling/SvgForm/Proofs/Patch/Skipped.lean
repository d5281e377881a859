import Mathlib.Data.List.Basic
import SvgForm.Proofs.Patch.Outcome
/-! # Skipped patches

The report of a run counts the patches that were applied and names those that were skipped, each once and in
order. They leave no trace: without them the run gives the same document, and then nothing is skipped.
-/

namespace SvgForm.Document

variable {d : Document} {holder : String} {raw : Datum} {raws before after : List Datum}

/-- The data whose places are not among those skipped. -/
def kept (skipped : List Nat) (raws : List Datum) : List Datum :=
  (raws.zipIdx.filter fun entry => entry.2 ∉ skipped).map Prod.fst

@[simp] theorem patchAll_fst : (d.patchAll holder raws).1 = (patchFrom holder 0 raws d).1 := rfl

@[simp] theorem skipped_patchAll :
    (d.patchAll holder raws).2.skipped = (patchFrom holder 0 raws d).2.2 := rfl

/-- A run over one list and then another. -/
theorem patchFrom_append (n : Nat) : patchFrom holder n (before ++ after) d =
    ((patchFrom holder (n + before.length) after (patchFrom holder n before d).1).1,
      (patchFrom holder n before d).2.1 +
        (patchFrom holder (n + before.length) after (patchFrom holder n before d).1).2.1,
      (patchFrom holder n before d).2.2 ++
        (patchFrom holder (n + before.length) after (patchFrom holder n before d).1).2.2) := by
  induction before generalizing n d with
  | nil => simp [patchFrom]
  | cons raw before ih =>
      have places : n + 1 + before.length = n + (raw :: before).length := by
        rw [List.length_cons]
        omega
      rw [List.cons_append]
      rcases applyData_cases d holder raw with failed | ⟨d', applied⟩
      · rw [patchFrom_cons_of_failed failed, patchFrom_cons_of_failed failed, ih, places, List.cons_append]
      · rw [patchFrom_cons_of_applied applied, patchFrom_cons_of_applied applied, ih, places, Nat.add_right_comm]

/-! ## The places that are skipped -/

theorem skipped_bounds {n i : Nat} (hi : i ∈ (patchFrom holder n raws d).2.2) :
    n ≤ i ∧ i < n + raws.length := by
  induction raws generalizing n d with
  | nil => exact absurd hi List.not_mem_nil
  | cons raw raws ih =>
      rw [List.length_cons]
      rcases applyData_cases d holder raw with failed | ⟨d', applied⟩
      · rw [patchFrom_cons_of_failed failed] at hi
        rcases List.mem_cons.mp hi with rfl | later
        · omega
        · have := ih later
          omega
      · rw [patchFrom_cons_of_applied applied] at hi
        have := ih hi
        omega

theorem skipped_increasing (n : Nat) : (patchFrom holder n raws d).2.2.Pairwise (· < ·) := by
  induction raws generalizing n d with
  | nil => exact List.Pairwise.nil
  | cons raw raws ih =>
      rcases applyData_cases d holder raw with failed | ⟨d', applied⟩
      · rw [patchFrom_cons_of_failed failed]
        exact List.pairwise_cons.mpr ⟨fun i hi => (skipped_bounds hi).1, ih (n + 1)⟩
      · rw [patchFrom_cons_of_applied applied]
        exact ih (n + 1)

/-- Every patch is counted or its place is kept. -/
theorem applied_add_length_skipped (n : Nat) :
    (patchFrom holder n raws d).2.1 + (patchFrom holder n raws d).2.2.length = raws.length := by
  induction raws generalizing n d with
  | nil => rfl
  | cons raw raws ih =>
      rw [List.length_cons]
      rcases applyData_cases d holder raw with failed | ⟨d', applied⟩
      · rw [patchFrom_cons_of_failed failed, List.length_cons, ← Nat.add_assoc, ih]
      · rw [patchFrom_cons_of_applied applied, Nat.add_right_comm, ih]

/-- A place is skipped just if its patch cannot be applied to what the patches before it made. -/
theorem mem_skipped_iff (n : Nat) :
    n + before.length ∈ (patchFrom holder n (before ++ raw :: after) d).2.2 ↔
      ((patchFrom holder n before d).1.applyData holder raw).2 = false := by
  rw [patchFrom_append, List.mem_append]
  have earlier : n + before.length ∉ (patchFrom holder n before d).2.2 := by
    intro mem
    exact absurd (skipped_bounds mem).2 (Nat.lt_irrefl _)
  rcases applyData_cases (patchFrom holder n before d).1 holder raw with failed | ⟨d', applied⟩
  · rw [patchFrom_cons_of_failed failed, failed]
    exact ⟨fun _ => rfl, fun _ => .inr List.mem_cons_self⟩
  · rw [patchFrom_cons_of_applied applied, applied]
    constructor
    · rintro (mem | mem)
      · exact absurd mem earlier
      · have := (skipped_bounds mem).1
        omega
    · intro failed
      cases failed

/-- One that is skipped leaves what the patches before it made. -/
theorem patchAll_of_fails (fails : (d.patchAll holder before).1.Fails holder raw) :
    (d.patchAll holder (before ++ [raw])).1 = (d.patchAll holder before).1 := by
  rw [patchAll_fst, patchFrom_append, fst_patchFrom_cons, ← patchAll_fst, applyData_of_fails fails]
  rfl

/-! ## Runs without what is skipped -/

/-- The first place is that of the head; no later one is. -/
theorem patchFrom_kept (n m : Nat) :
    patchFrom holder m (((raws.zipIdx n).filter fun entry =>
        entry.2 ∉ (patchFrom holder n raws d).2.2).map Prod.fst) d =
      ((patchFrom holder n raws d).1, (patchFrom holder n raws d).2.1, []) := by
  induction raws generalizing n m d with
  | nil => rfl
  | cons raw raws ih =>
      rw [List.zipIdx_cons]
      rcases applyData_cases d holder raw with failed | ⟨d', applied⟩
      · have others : ∀ entry ∈ raws.zipIdx (n + 1),
            decide (entry.2 ∉ n :: (patchFrom holder (n + 1) raws d).2.2) =
              decide (entry.2 ∉ (patchFrom holder (n + 1) raws d).2.2) := by
          intro entry mem
          have later : n + 1 ≤ entry.2 := (List.le_snd_of_mem_zipIdx mem)
          have : entry.2 ≠ n := by omega
          simp [this]
        rw [patchFrom_cons_of_failed failed, List.filter_cons_of_neg (by simp), List.filter_congr others]
        exact ih (n + 1) m
      · have first : n ∉ (patchFrom holder (n + 1) raws d').2.2 := by
          intro mem
          exact absurd (skipped_bounds mem).1 (Nat.not_succ_le_self n)
        rw [patchFrom_cons_of_applied applied, List.filter_cons_of_pos (by simpa using first),
          List.map_cons, patchFrom_cons_of_applied applied, ih (n + 1) (m + 1)]

theorem complete_of_skipped (none : (d.patchAll holder raws).2.skipped = []) :
    (d.patchAll holder raws).2.complete = true := by
  have all : (d.patchAll holder raws).2.applied + (d.patchAll holder raws).2.skipped.length = raws.length :=
    applied_add_length_skipped 0
  rw [none] at all
  exact decide_eq_true all

/-- The report accounts for every patch: it was applied, and counted, or its place is among those skipped. These
are the places of the patches that failed when their turn came, in one of the ways to fail, and left the document as
it was; without them the same document comes of the run, and the report is complete. -/
theorem patchAll_kept (d : Document) (holder : String) (raws : List Datum) :
    (d.patchAll holder raws).2.total = raws.length ∧
      (d.patchAll holder raws).2.skipped.Pairwise (· < ·) ∧
      (∀ i ∈ (d.patchAll holder raws).2.skipped, i < raws.length) ∧
      (∀ before raw after, raws = before ++ raw :: after →
        (before.length ∈ (d.patchAll holder raws).2.skipped ↔
          ((d.patchAll holder before).1.applyData holder raw).2 = false) ∧
        (((d.patchAll holder before).1.applyData holder raw).2 = false ↔
          (d.patchAll holder before).1.Fails holder raw) ∧
        (before.length ∈ (d.patchAll holder raws).2.skipped →
          (d.patchAll holder (before ++ [raw])).1 = (d.patchAll holder before).1)) ∧
      (d.patchAll holder raws).2.applied + (d.patchAll holder raws).2.skippedCount =
        (d.patchAll holder raws).2.total ∧
      (d.patchAll holder (kept (d.patchAll holder raws).2.skipped raws)).1 = (d.patchAll holder raws).1 ∧
      (d.patchAll holder (kept (d.patchAll holder raws).2.skipped raws)).2.skipped = [] ∧
      (d.patchAll holder (kept (d.patchAll holder raws).2.skipped raws)).2.complete = true := by
  have run : patchFrom holder 0 (kept (d.patchAll holder raws).2.skipped raws) d =
      ((patchFrom holder 0 raws d).1, (patchFrom holder 0 raws d).2.1, []) := patchFrom_kept 0 0
  have complete : (d.patchAll holder (kept (d.patchAll holder raws).2.skipped raws)).2.skipped = [] := by
    rw [skipped_patchAll, run]
  refine ⟨rfl, skipped_increasing 0, fun i hi => ?_, ?_, applied_add_length_skipped 0, ?_, complete,
    complete_of_skipped complete⟩
  · have := (skipped_bounds hi).2
    rwa [Nat.zero_add] at this
  · rintro before raw after rfl
    have place : 0 + before.length ∈ (patchFrom holder 0 (before ++ raw :: after) d).2.2 ↔
        ((patchFrom holder 0 before d).1.applyData holder raw).2 = false := mem_skipped_iff 0
    rw [Nat.zero_add] at place
    exact ⟨place, applyData_eq_false_iff, fun skipped =>
      patchAll_of_fails (fails_of_applyData (place.mp skipped))⟩
  · rw [patchAll_fst, run, patchAll_fst]

end SvgForm.Document
