import SvgForm.Marker.Detector
import SvgForm.Marker.Geometry
import SvgForm.Proofs.Decimal.Arithmetic
/-! # The line of marks

Marks make a line from left to right, each end of which is a share of them: half of them at most, but one at least.
So neither end is empty, and the middle of the first is not right of that of the last. Without marks there is no line,
but its ends are to have one mark as well, and their middle is no number.
-/

namespace SvgForm.Marker

/-! ## The ends of a line -/

/-- Places from left to right. -/
def lineOf (marks : List Place) : List Place :=
  marks.mergeSort Place.isBefore

/-- The leftmost share of places. -/
def startOf (marks : List Place) (share : Float) : List Place :=
  (lineOf marks).take (endpointSize marks.length share)

/-- The rightmost share of places. -/
def endOf (marks : List Place) (share : Float) : List Place :=
  (lineOf marks).drop (marks.length - endpointSize marks.length share)

/-- The rotation is that of the line between the middles of its ends. -/
theorem rotationOf_ends (marks : List Place) (share : Float) :
    rotationOf marks share =
      Float.atan2 ((middle (endOf marks share)).y - (middle (startOf marks share)).y)
        ((middle (endOf marks share)).x - (middle (startOf marks share)).x) * degreesPerRadian := by
  simp only [rotationOf, startOf, endOf, lineOf, List.length_mergeSort]

theorem length_lineOf (marks : List Place) : (lineOf marks).length = marks.length :=
  List.length_mergeSort marks

theorem Place.isBefore_iff {p q : Place} : p.isBefore q = true ↔ p.x < q.x ∨ p.x = q.x ∧ p.y ≤ q.y := by
  rw [isBefore, Bool.or_eq_true, Bool.and_eq_true, decide_eq_true_eq, decide_eq_true_eq, decide_eq_true_eq]

theorem lineOf_sorted (marks : List Place) : ((lineOf marks).map (·.x)).SortedLE := by
  have ordered : (lineOf marks).Pairwise fun p q => p.isBefore q = true := by
    refine List.pairwise_mergeSort (fun p q s => ?_) (fun p q => ?_) marks
    · simp only [Place.isBefore_iff]
      omega
    · simp only [Bool.or_eq_true, Place.isBefore_iff]
      omega
  refine (List.pairwise_map.mpr (ordered.imp fun {p q} before => ?_)).sortedLE
  have := Place.isBefore_iff.mp before
  omega

/-! ## How long an end is -/

theorem endpointSize_pos (n : Nat) (share : Float) : 0 < endpointSize n share :=
  Nat.le_max_left ..

/-- A share of no more than a half does not exceed the whole, unless there is nothing to share. -/
theorem endpointSize_le {n : Nat} (pos : 0 < n) {share : Float} (above : 0 < share) (below : share ≤ 0.5) :
    endpointSize n share ≤ n := by
  have count : quotient n 1 = Decimal.nearestInt n 1 := if_neg one_ne_zero
  rw [endpointSize, count]
  refine Nat.max_le.mpr ⟨pos, ?_⟩
  cases whole : Decimal.truncated? (Decimal.nearestInt n 1 * share) with
  | none => exact Nat.zero_le n
  | some t => exact Decimal.truncated_share_le pos above below whole

/-! ## The way from one end to the other -/

/-- How far places are from the left, all together. -/
def sumX (ps : List Place) : Nat :=
  (ps.map (·.x)).sum

/-- The mean distance of places from the left, exactly. -/
def averageX (ps : List Place) : ℚ :=
  sumX ps / ps.length

/-- The middle of places is as far from the left as the double nearest to their mean distance. -/
theorem middle_x {ps : List Place} (some : 0 < ps.length) :
    (middle ps).x = Decimal.nearestInt (sumX ps) ps.length := by
  have sum : (ps.map (·.x)).foldl Nat.add 0 = sumX ps := (List.sum_eq_foldl ..).symm
  simp only [middle, mean, quotient, List.length_map, if_neg some.ne', sum]

/-- The first of sorted numbers add up to no more than the last. -/
theorem sum_take_le_sum_drop {ns : List Nat} (sorted : ns.SortedLE) {k : Nat} (fits : k ≤ ns.length) :
    (ns.take k).sum ≤ (ns.drop (ns.length - k)).sum := by
  have lengths : (ns.take k).length = (ns.drop (ns.length - k)).length := by
    rw [List.length_take, List.length_drop]
    omega
  -- one by one: a number that comes no later is no greater
  refine List.Forall₂.sum_le_sum (List.forall₂_iff_get.mpr ⟨lengths, fun i _ _ => ?_⟩)
  simp only [List.get_eq_getElem, List.getElem_take, List.getElem_drop]
  exact sorted.getElem_le_getElem_of_le (Nat.le_add_left ..)

variable {marks : List Place} {share : Float}

theorem length_startOf (fits : endpointSize marks.length share ≤ marks.length) :
    (startOf marks share).length = endpointSize marks.length share := by
  rw [startOf, List.length_take, length_lineOf, Nat.min_eq_left fits]

theorem length_endOf (fits : endpointSize marks.length share ≤ marks.length) :
    (endOf marks share).length = endpointSize marks.length share := by
  rw [endOf, List.length_drop, length_lineOf, Nat.sub_sub_self fits]

theorem averageX_le (fits : endpointSize marks.length share ≤ marks.length) :
    averageX (startOf marks share) ≤ averageX (endOf marks share) := by
  have sums := sum_take_le_sum_drop (lineOf_sorted marks) (k := endpointSize marks.length share)
    (by rwa [List.length_map, length_lineOf])
  rw [List.length_map, length_lineOf, ← List.map_take, ← List.map_drop] at sums
  rw [averageX, averageX, length_startOf fits, length_endOf fits]
  gcongr
  exact sums

theorem middle_startOf (fits : endpointSize marks.length share ≤ marks.length) :
    (middle (startOf marks share)).x =
      Decimal.nearestInt (sumX (startOf marks share)) (endpointSize marks.length share) := by
  rw [middle_x (length_startOf fits ▸ endpointSize_pos ..), length_startOf fits]

theorem middle_endOf (fits : endpointSize marks.length share ≤ marks.length) :
    (middle (endOf marks share)).x =
      Decimal.nearestInt (sumX (endOf marks share)) (endpointSize marks.length share) := by
  rw [middle_x (length_endOf fits ▸ endpointSize_pos ..), length_endOf fits]

/-! ## Lines of a detector -/

theorem Detector.share_of_check {d : Detector} (accepted : d.check = .ok d) :
    0 < d.endpointFraction.toFloat ∧ d.endpointFraction.toFloat ≤ 0.5 := by
  revert accepted
  fun_cases Detector.check d with
  | case1 | case2 => rintro ⟨⟩
  | case3 _ share => exact fun _ => not_not.mp share

/-- The line goes from one end to the other. Where there is a mark, the ends are as long as they are meant to be and it
does not point to the left. Marks that are enough and yet none need a detector that calls for fewer than none, and then
the ends are too short. -/
theorem ends_spec {d : Detector} (accepted : d.check = .ok d) (enough : d.minGreen < marks.length) :
    let share := d.endpointFraction.toFloat
    let k := endpointSize marks.length share
    let first := startOf marks share
    let last := endOf marks share
    rotationOf marks share =
        Float.atan2 ((middle last).y - (middle first).y) ((middle last).x - (middle first).x) * degreesPerRadian ∧
      1 ≤ k ∧ (marks = [] → d.minGreen < 0 ∧ marks.length < k) ∧
      (marks ≠ [] → k ≤ marks.length ∧ (first.length = k ∧ last.length = k) ∧
        ((middle first).x = Decimal.nearestInt (sumX first) k ∧ (middle last).x = Decimal.nearestInt (sumX last) k) ∧
        averageX first ≤ averageX last) := by
  intro share k first last
  have least : 1 ≤ k := endpointSize_pos _ _
  obtain ⟨above, below⟩ := d.share_of_check accepted
  refine ⟨rotationOf_ends marks share, least, fun none => ?_, fun some => ?_⟩
  · have empty : marks.length = 0 := List.length_eq_zero_iff.mpr none
    omega
  · have fits : k ≤ marks.length := endpointSize_le (List.length_pos_of_ne_nil some) above below
    exact ⟨fits, ⟨length_startOf fits, length_endOf fits⟩, ⟨middle_startOf fits, middle_endOf fits⟩, averageX_le fits⟩

/-- A detector to which each half of the marks is an end, and one mark is enough. -/
def halving : Detector := { minGreen := 0, endpointFraction := .real 0.5 }

/-- Two marks, the right one first. -/
def twoMarks : List Place := [⟨7, 1⟩, ⟨3, 2⟩]

theorem twoMarks_ends :
    (1 ≤ endpointSize 2 0.5 ∧ endpointSize 2 0.5 ≤ 2) ∧
      averageX (startOf twoMarks 0.5) ≤ averageX (endOf twoMarks 0.5) := by
  have enough : halving.minGreen < twoMarks.length := by decide
  obtain ⟨-, least, -, ends⟩ := ends_spec rfl enough
  obtain ⟨fits, -, -, ordered⟩ := ends (by decide)
  exact ⟨⟨least, fits⟩, ordered⟩

/-- A detector that calls for fewer green marks than none takes the middle of no marks, which is no number. -/
theorem no_marks_enough :
    let d : Detector := { minGreen := -1 }
    let share := d.endpointFraction.toFloat
    d.check = .ok d ∧ d.minGreen < ([] : List Place).length ∧ ¬endpointSize 0 share ≤ 0 ∧
      startOf [] share = [] ∧ endOf [] share = [] ∧ (middle []).x.isNaN = true := by
  have line : lineOf [] = [] := List.mergeSort_nil
  refine ⟨rfl, by decide, Nat.not_le.mpr (endpointSize_pos ..), ?_, ?_, rfl⟩
  · rw [startOf, line, List.take_nil]
  · rw [endOf, line, List.drop_nil]

end SvgForm.Marker
