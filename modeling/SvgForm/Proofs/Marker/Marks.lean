import Mathlib.Algebra.Order.Group.Abs
import Mathlib.Algebra.Order.Group.Int
import Mathlib.Data.Set.Card
import SvgForm.Marker.Detector
/-! # Which pixels are marks

A pixel marks the border if it is opaque enough and differs from a blue color by no more than the tolerance in each
of its parts. Where the parts of colors and the tolerance lie between 0 and 255, neither the words of sixteen bits nor
the samples of eight change that: no sum leaves the words, and what is cut off lies beyond every sample.
-/

namespace SvgForm.Marker

/-! ## Places -/

namespace Raster

variable {r : Raster}

theorem mem_places {p : Place} : p ∈ r.places ↔ p.x < r.width ∧ p.y < r.height := by
  simp only [places, List.mem_flatMap, List.mem_map, List.mem_range]
  constructor
  · rintro ⟨y, high, x, wide, rfl⟩
    exact ⟨wide, high⟩
  · rintro ⟨wide, high⟩
    exact ⟨p.y, high, p.x, wide, rfl⟩

theorem places_nodup (r : Raster) : r.places.Nodup := by
  refine List.nodup_flatMap.mpr ⟨fun y _ => ?_, ?_⟩
  · exact List.nodup_range.map fun x x' same => congrArg Place.x same
  · refine List.nodup_range.imp fun {y y'} differ => ?_
    simp only [Function.onFun, List.disjoint_left, List.mem_map, not_exists, not_and]
    rintro p ⟨x, _, rfl⟩ x' _ same
    exact differ (congrArg Place.y same).symm

end Raster

/-! ## Words and samples -/

/-- A whole number of sixteen bits. -/
def IsWord (n : Int) : Prop :=
  -32768 ≤ n ∧ n ≤ 32767

instance (n : Int) : Decidable (IsWord n) :=
  inferInstanceAs (Decidable (_ ∧ _))

theorem wordValue_eq_iff {n : Int} : wordValue n = n ↔ IsWord n := by
  rw [wordValue, IsWord, Int.bmod_def]
  split <;> omega

/-- A value that a sample can have. -/
def IsSample (n : Int) : Prop :=
  0 ≤ n ∧ n ≤ 255

instance (n : Int) : Decidable (IsSample n) :=
  inferInstanceAs (Decidable (_ ∧ _))

theorem IsSample.isWord {n : Int} (hn : IsSample n) : IsWord n :=
  ⟨by have := hn.1; omega, by have := hn.2; omega⟩

theorem isClose_iff {tolerance part : Int} (ht : IsSample tolerance) (hp : IsSample part) (sample : UInt8) :
    isClose tolerance part sample = true ↔ |(sample.toNat : Int) - part| ≤ tolerance := by
  obtain ⟨tlow, thigh⟩ := ht
  obtain ⟨plow, phigh⟩ := hp
  have below : wordValue (part - tolerance) = part - tolerance := wordValue_eq_iff.mpr ⟨by omega, by omega⟩
  have above : wordValue (part + tolerance) = part + tolerance := wordValue_eq_iff.mpr ⟨by omega, by omega⟩
  have least := sample.toNat_lt
  rw [isClose, below, above, Bool.and_eq_true, decide_eq_true_eq, decide_eq_true_eq, abs_le, clamp, clamp]
  omega

/-! ## Colors -/

namespace Color

/-- A color whose parts are words. -/
def OfWords (c : Color) : Prop :=
  IsWord c.red ∧ IsWord c.green ∧ IsWord c.blue

/-- A color that a pixel can have. -/
def OfSamples (c : Color) : Prop :=
  IsSample c.red ∧ IsSample c.green ∧ IsSample c.blue

/-- A pixel differs from a color by no more than a tolerance in each of its parts. -/
def Within (tolerance : Int) (c : Color) (p : Pixel) : Prop :=
  |(p.red.toNat : Int) - c.red| ≤ tolerance ∧ |(p.green.toNat : Int) - c.green| ≤ tolerance ∧
    |(p.blue.toNat : Int) - c.blue| ≤ tolerance

instance : DecidablePred OfWords := fun _ =>
  inferInstanceAs (Decidable (_ ∧ _))

instance : DecidablePred OfSamples := fun _ =>
  inferInstanceAs (Decidable (_ ∧ _))

instance (tolerance : Int) (c : Color) (p : Pixel) : Decidable (c.Within tolerance p) :=
  inferInstanceAs (Decidable (_ ∧ _))

variable {c : Color} {tolerance tolerance' : Int} {p : Pixel}

theorem OfSamples.ofWords (hc : c.OfSamples) : c.OfWords :=
  ⟨hc.1.isWord, hc.2.1.isWord, hc.2.2.isWord⟩

theorem isNear_iff (ht : IsSample tolerance) (hc : c.OfSamples) : c.isNear tolerance p = true ↔ c.Within tolerance p := by
  rw [isNear, Bool.and_eq_true, Bool.and_eq_true, isClose_iff ht hc.1, isClose_iff ht hc.2.1, isClose_iff ht hc.2.2,
    and_assoc, Within]

theorem Within.mono (near : c.Within tolerance p) (wider : tolerance ≤ tolerance') : c.Within tolerance' p :=
  ⟨near.1.trans wider, near.2.1.trans wider, near.2.2.trans wider⟩

theorem oversized?_eq_none_iff : c.oversized? tolerance = none ↔ c.OfWords ∧ IsWord tolerance := by
  simp [oversized?, wordValue_eq_iff, OfWords, and_assoc]

/-- What is found where the tolerance is a word is a part of the color that is none. -/
theorem of_oversized? {n : Int} (found : c.oversized? tolerance = some n) (ht : IsWord tolerance) :
    n ∈ [c.red, c.green, c.blue] ∧ ¬IsWord n := by
  have large : ¬IsWord n := by
    have := List.find?_some found
    rwa [decide_eq_true_eq, ne_eq, wordValue_eq_iff] at this
  have mem : n ∈ [c.red, c.green, c.blue] ++ [tolerance] := List.mem_of_find?_eq_some found
  obtain part | last := List.mem_append.mp mem
  · exact ⟨part, large⟩
  · exact (large (List.mem_singleton.mp last ▸ ht)).elim

end Color

/-! ## Marks of the border -/

namespace Detector

variable {d : Detector} {p : Pixel}

/-- All colors of a detector. -/
def colors (d : Detector) : List Color :=
  d.palettes.blue ++ d.palettes.red ++ d.palettes.green

theorem mem_colors {c : Color} : c ∈ d.colors ↔ c ∈ d.palettes.blue ∨ c ∈ d.palettes.red ++ d.palettes.green := by
  rw [colors, List.append_assoc, List.mem_append]

theorem oversized?_eq_none (words : ∀ c ∈ d.colors, c.OfWords) (tolerance : IsWord d.tolerance) :
    d.oversized? = none :=
  List.findSome?_eq_none_iff.mpr fun c mem => Color.oversized?_eq_none_iff.mpr ⟨words c mem, tolerance⟩

/-- The first number that is no word belongs to a red or green color, if the blue ones and the tolerance have none. -/
theorem oversized?_spec (blue : ∀ c ∈ d.palettes.blue, c.OfWords) (tolerance : IsWord d.tolerance)
    (oversized : ∃ c ∈ d.palettes.red ++ d.palettes.green, ¬c.OfWords) :
    ∃ c ∈ d.palettes.red ++ d.palettes.green, ∃ n ∈ [c.red, c.green, c.blue], ¬IsWord n ∧ d.oversized? = some n := by
  obtain ⟨c, mem, large⟩ := oversized
  have isSome : d.oversized? ≠ none := fun none =>
    large (Color.oversized?_eq_none_iff.mp (List.findSome?_eq_none_iff.mp none c (mem_colors.mpr (.inr mem)))).1
  obtain ⟨n, first⟩ := Option.ne_none_iff_exists'.mp isSome
  obtain ⟨c', mem', found⟩ := List.exists_of_findSome?_eq_some first
  obtain ⟨part, large'⟩ := Color.of_oversized? found tolerance
  have other : c' ∉ d.palettes.blue := by
    intro mem
    rw [Color.oversized?_eq_none_iff.mpr ⟨blue c' mem, tolerance⟩] at found
    cases found
  exact ⟨c', (mem_colors.mp mem').resolve_left other, n, part, large', first⟩

/-- A pixel that is opaque enough and close enough to a blue color. -/
def IsBlue (d : Detector) (p : Pixel) : Prop :=
  d.alphaThreshold ≤ p.alpha.toNat ∧ ∃ c ∈ d.palettes.blue, c.Within d.tolerance p

instance (d : Detector) : DecidablePred d.IsBlue := fun _ =>
  inferInstanceAs (Decidable (_ ∧ _))

theorem mem_marks_iff {m : Mark} {r : Raster} {p : Place} :
    p ∈ d.marks m r ↔ (p.x < r.width ∧ p.y < r.height) ∧ d.mark? (r.pixel p) = some m := by
  rw [marks, List.mem_filter, Raster.mem_places, decide_eq_true_eq]

theorem marks_nodup (d : Detector) (m : Mark) (r : Raster) : (d.marks m r).Nodup :=
  r.places_nodup.filter _

/-- The places of the blue pixels of an image. -/
def blueAt (d : Detector) (r : Raster) : Set Place :=
  {p | p.x < r.width ∧ p.y < r.height ∧ d.IsBlue (r.pixel p)}

theorem blueAt_finite (d : Detector) (r : Raster) : (d.blueAt r).Finite :=
  r.places.finite_toSet.subset fun _ mem => Raster.mem_places.mpr ⟨mem.1, mem.2.1⟩

/-- A detector that is no stricter sees blue wherever the other does. -/
theorem blueAt_mono {e : Detector} {r : Raster} (blue : d.palettes.blue = e.palettes.blue)
    (tolerance : d.tolerance ≤ e.tolerance) (alpha : e.alphaThreshold ≤ d.alphaThreshold) :
    d.blueAt r ⊆ e.blueAt r := by
  rintro p ⟨wide, high, visible, c, mem, near⟩
  exact ⟨wide, high, alpha.trans visible, c, blue ▸ mem, near.mono tolerance⟩

section Samples

variable (ht : IsSample d.tolerance) (hc : ∀ c ∈ d.palettes.blue, c.OfSamples) {r : Raster}

include ht hc

/-- Blue marks come before all others, so the other colors do not matter. -/
theorem mark?_eq_blue_iff : d.mark? p = some .blue ↔ d.IsBlue p := by
  have near : d.matchesAny d.palettes.blue p = true ↔ ∃ c ∈ d.palettes.blue, c.Within d.tolerance p := by
    rw [matchesAny, List.any_eq_true]
    exact exists_congr fun c => and_congr_right fun mem => Color.isNear_iff ht (hc c mem)
  rw [IsBlue, ← near, mark?]
  split_ifs <;> simp_all

theorem mem_marks_blue_iff {p : Place} : p ∈ d.marks .blue r ↔ p ∈ d.blueAt r := by
  rw [mem_marks_iff, mark?_eq_blue_iff ht hc, and_assoc]
  rfl

theorem marks_blue_eq_nil_iff : d.marks .blue r = [] ↔ d.blueAt r = ∅ := by
  rw [List.eq_nil_iff_forall_not_mem, Set.eq_empty_iff_forall_notMem]
  exact forall_congr' fun p => not_congr (mem_marks_blue_iff ht hc)

theorem length_marks_blue : (d.marks .blue r).length = (d.blueAt r).ncard := by
  have same : d.blueAt r = ((d.marks .blue r).toFinset : Set Place) := by
    ext p
    rw [List.coe_toFinset]
    exact (mem_marks_blue_iff ht hc).symm
  rw [same, Set.ncard_coe_finset, List.toFinset_card_of_nodup (d.marks_nodup .blue r)]

end Samples

end Detector

end SvgForm.Marker
