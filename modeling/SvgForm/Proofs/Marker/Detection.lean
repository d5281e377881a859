import SvgForm.Marker.Detect
import SvgForm.Proofs.Decimal.Arithmetic
import SvgForm.Proofs.Marker.Marks
/-! # What detection finds

Where all parts of colors and the tolerance are values of samples, looking at an image never fails. An annotation is
found just if some pixel is blue, and its box is the tightest one around all blue pixels. So a detector with the same
blue colors that is no stricter finds an annotation too, with no fewer marks and a box no smaller.
-/

namespace SvgForm.Marker

open Decimal

/-! ## The box around marks -/

theorem least_spec {ns : List Nat} (some : ns ≠ []) : ns.min?.getD 0 ∈ ns ∧ ∀ n ∈ ns, ns.min?.getD 0 ≤ n := by
  obtain ⟨least, found⟩ := Option.isSome_iff_exists.mp (List.isSome_min?_of_ne_nil some)
  rw [found]
  exact List.min?_eq_some_iff.mp found

theorem greatest_spec {ns : List Nat} (some : ns ≠ []) : ns.max?.getD 0 ∈ ns ∧ ∀ n ∈ ns, n ≤ ns.max?.getD 0 := by
  obtain ⟨greatest, found⟩ := Option.isSome_iff_exists.mp (List.isSome_max?_of_ne_nil some)
  rw [found]
  exact List.max?_eq_some_iff.mp found

namespace BorderBox

/-- A place in a box, or on its edges. -/
def Holds (b : BorderBox) (p : Place) : Prop :=
  (b.left ≤ p.x ∧ p.x ≤ b.right) ∧ b.top ≤ p.y ∧ p.y ≤ b.bottom

/-- A box that holds places, with one of them on each of its edges. -/
structure Tight (b : BorderBox) (ps : Set Place) : Prop where
  holds : ∀ p ∈ ps, b.Holds p
  left : ∃ p ∈ ps, (p.x : Int) = b.left
  right : ∃ p ∈ ps, (p.x : Int) = b.right
  top : ∃ p ∈ ps, (p.y : Int) = b.top
  bottom : ∃ p ∈ ps, (p.y : Int) = b.bottom

/-- A box within another, or as large. -/
def Contains (b b' : BorderBox) : Prop :=
  (b.left ≤ b'.left ∧ b'.right ≤ b.right) ∧ b.top ≤ b'.top ∧ b'.bottom ≤ b.bottom

variable {b b' : BorderBox} {ps ps' : Set Place}

theorem Tight.contains (hb : b.Tight ps) (hb' : b'.Tight ps') (more : ps' ⊆ ps) : b.Contains b' := by
  have holds (p : Place) (mem : p ∈ ps') := hb.holds p (more mem)
  obtain ⟨l, lmem, left⟩ := hb'.left
  obtain ⟨r, rmem, right⟩ := hb'.right
  obtain ⟨t, tmem, top⟩ := hb'.top
  obtain ⟨e, emem, bottom⟩ := hb'.bottom
  exact ⟨⟨left ▸ (holds l lmem).1.1, right ▸ (holds r rmem).1.2⟩, top ▸ (holds t tmem).2.1, bottom ▸ (holds e emem).2.2⟩

theorem Tight.ordered (hb : b.Tight ps) : b.left ≤ b.right ∧ b.top ≤ b.bottom := by
  obtain ⟨p, mem, _⟩ := hb.left
  obtain ⟨⟨left, right⟩, top, bottom⟩ := hb.holds p mem
  exact ⟨left.trans right, top.trans bottom⟩

/-- The edges of a tight box are as far from those of the image as the places are. -/
theorem Tight.thickness_nonneg (hb : b.Tight ps) {width height : Nat} (inside : ∀ p ∈ ps, p.x < width ∧ p.y < height) :
    0 ≤ b.thickness width height := by
  obtain ⟨l, lmem, left⟩ := hb.left
  obtain ⟨r, rmem, right⟩ := hb.right
  obtain ⟨t, tmem, top⟩ := hb.top
  obtain ⟨e, emem, bottom⟩ := hb.bottom
  have wide := (inside r rmem).1
  have high := (inside e emem).2
  rw [thickness]
  omega

theorem check_ok (ordered : b.left ≤ b.right ∧ b.top ≤ b.bottom) : b.check = .ok b := by
  rw [check, if_neg ordered.1.not_gt, if_neg ordered.2.not_gt]

end BorderBox

theorem boxAround_tight {ps : List Place} (some : ps ≠ []) : (boxAround ps).Tight {p | p ∈ ps} := by
  have xs : ps.map (·.x) ≠ [] := by simpa using some
  have ys : ps.map (·.y) ≠ [] := by simpa using some
  obtain ⟨left, least⟩ := least_spec xs
  obtain ⟨right, greatest⟩ := greatest_spec xs
  obtain ⟨top, uppermost⟩ := least_spec ys
  obtain ⟨bottom, lowest⟩ := greatest_spec ys
  simp only [List.mem_map, forall_exists_index, and_imp, forall_apply_eq_imp_iff₂] at *
  constructor
  case holds =>
    intro p mem
    exact ⟨⟨Int.ofNat_le.mpr (least p mem), Int.ofNat_le.mpr (greatest p mem)⟩,
      Int.ofNat_le.mpr (uppermost p mem), Int.ofNat_le.mpr (lowest p mem)⟩
  case left =>
    obtain ⟨p, mem, same⟩ := left
    exact ⟨p, mem, congrArg Int.ofNat same⟩
  case right =>
    obtain ⟨p, mem, same⟩ := right
    exact ⟨p, mem, congrArg Int.ofNat same⟩
  case top =>
    obtain ⟨p, mem, same⟩ := top
    exact ⟨p, mem, congrArg Int.ofNat same⟩
  case bottom =>
    obtain ⟨p, mem, same⟩ := bottom
    exact ⟨p, mem, congrArg Int.ofNat same⟩

/-! ## How sure a border is -/

theorem quotient_unsigned {n : Nat} (pos : 0 < n) : Unsigned (quotient n 1).toModel.unpack := by
  rw [quotient, if_neg one_ne_zero]
  exact (atMost_nearestInt pos).unsigned

/-- Neither number nor area is nought, so their quotient has no minus sign, and it is a number if it is below one. -/
theorem confidenceOf_bounds {count width height : Nat} (marks : 0 < count) (area : 0 < width * height) :
    0 ≤ confidenceOf count width height ∧ confidenceOf count width height ≤ 1 := by
  rw [confidenceOf]
  split_ifs with few
  · have hundredth : Unsigned (0.01 : Float).toModel.unpack := rfl
    have scaled : Unsigned (quotient (width * height : Nat) 1 * 0.01).toModel.unpack :=
      ((quotient_unsigned area).mul hundredth).pack
    have unsigned : Unsigned (quotient count 1 / (quotient (width * height : Nat) 1 * 0.01)).toModel.unpack :=
      ((quotient_unsigned marks).div scaled).pack
    exact ⟨nonneg_of_unsigned unsigned few, le_of_lt few⟩
  · decide

/-! ## Annotations of the border -/

/-- What an annotation says of the border of an image, where the blue pixels are at these places. -/
structure Annotation.Frames (a : Annotation) (blue : Set Place) (width height : Nat) : Prop where
  count : a.markerCount = blue.ncard
  tight : a.border.Tight blue
  content : a.content.width = a.border.right - a.border.left ∧ a.content.height = a.border.bottom - a.border.top
  thickness : a.borderThickness =
    min (min a.border.left a.border.top) (min (width - a.border.right) (height - a.border.bottom))
  thickness_nonneg : 0 ≤ a.borderThickness

/-- More blue pixels are counted as more and take a larger box. -/
theorem Annotation.Frames.mono {a b : Annotation} {ps ps' : Set Place} {width height : Nat}
    (ha : a.Frames ps width height) (hb : b.Frames ps' width height) (more : ps ⊆ ps') (finite : ps'.Finite) :
    a.markerCount ≤ b.markerCount ∧ b.border.Contains a.border := by
  refine ⟨?_, hb.tight.contains ha.tight more⟩
  rw [ha.count, hb.count]
  exact Int.ofNat_le.mpr (Set.ncard_le_ncard more finite)

theorem Annotation.check_ok {a : Annotation} (width : 0 < a.imageWidth) (height : 0 < a.imageHeight)
    (confidence : 0 ≤ a.confidence.toFloat ∧ a.confidence.toFloat ≤ 1) (count : 0 ≤ a.markerCount) :
    a.check = .ok a := by
  rw [check, if_neg (by omega), if_neg (not_not.mpr confidence), if_neg count.not_gt]

namespace Detector

variable {d e : Detector} {r : Raster} {a : Annotation}

/-! ## Looking at an image -/

theorem detectImage_of_none (size : r.size ≠ 0) (channels : r.channels = 4) (words : d.oversized? = none)
    (unmarked : d.marks .blue r = []) : d.detectImage r = .ok none := by
  simp only [detectImage, if_neg size, if_neg (not_not.mpr channels), words, unmarked]

theorem detectImage_of_ok (size : r.size ≠ 0) (channels : r.channels = 4) (words : d.oversized? = none)
    (marked : d.marks .blue r ≠ []) (annotated : d.annotate r (d.marks .blue r) = .ok a) :
    d.detectImage r = .ok (some a) := by
  simp only [detectImage, if_neg size, if_neg (not_not.mpr channels), words, annotated]
  rfl

theorem detectImage_of_oversized (size : r.size ≠ 0) (channels : r.channels = 4) {n : Int}
    (oversized : d.oversized? = some n) : d.detectImage r = .error (.oversized n) := by
  simp only [detectImage, if_neg size, if_neg (not_not.mpr channels), oversized]

/-- An annotation is found in an image only that is not empty and has marks of a border, and says what they say. -/
theorem of_detectImage (found : d.detectImage r = .ok (some a)) :
    (r.size ≠ 0 ∧ r.channels = 4) ∧ d.marks .blue r ≠ [] ∧ d.annotate r (d.marks .blue r) = .ok a := by
  revert found
  fun_cases detectImage d r with
  | case1 | case2 | case3 | case4 => intro found; cases found
  | case5 size channels words marked =>
      intro found
      refine ⟨⟨size, not_not.mp channels⟩, marked, ?_⟩
      cases annotated : d.annotate r (d.marks .blue r) with
      | error e => rw [annotated] at found; cases found
      | ok a' => rw [annotated] at found; cases found; rfl

/-! ## Images of samples

The parts of blue colors and the tolerance are values of samples, so the marks of the border are the blue pixels.
-/

section Samples

variable (ht : IsSample d.tolerance) (hc : ∀ c ∈ d.palettes.blue, c.OfSamples)

include ht hc

theorem annotate_frames (some : d.marks .blue r ≠ []) :
    ∃ a, d.annotate r (d.marks .blue r) = .ok a ∧ a.Frames (d.blueAt r) r.width r.height := by
  have inside (p : Place) (mem : p ∈ d.blueAt r) : p.x < r.width ∧ p.y < r.height := ⟨mem.1, mem.2.1⟩
  have same : {p | p ∈ d.marks .blue r} = d.blueAt r := Set.ext fun p => mem_marks_blue_iff ht hc
  have tight := same ▸ boxAround_tight some
  obtain ⟨p, mem⟩ := List.exists_mem_of_ne_nil _ some
  obtain ⟨wide, high⟩ := inside p ((mem_marks_blue_iff ht hc).mp mem)
  have confidence := confidenceOf_bounds (List.length_pos_of_ne_nil some) (Nat.mul_pos (by omega : 0 < r.width)
    (by omega : 0 < r.height))
  rw [annotate, BorderBox.check_ok tight.ordered]
  refine ⟨_, Annotation.check_ok (by dsimp only; omega) (by dsimp only; omega) confidence (by dsimp only; omega), ?_⟩
  constructor
  case count => exact congrArg Int.ofNat (length_marks_blue ht hc)
  case tight => exact tight
  case content => exact ⟨rfl, rfl⟩
  case thickness => rfl
  case thickness_nonneg => exact tight.thickness_nonneg inside

theorem frames_of_detectImage (found : d.detectImage r = .ok (some a)) : a.Frames (d.blueAt r) r.width r.height := by
  obtain ⟨-, marked, annotated⟩ := of_detectImage found
  obtain ⟨a', annotated', frames⟩ := annotate_frames ht hc marked
  cases annotated.symm.trans annotated'
  exact frames

end Samples

/-- Detection never fails on an image, finds an annotation just if there is a blue pixel, and its box is as tight as
can be. -/
theorem detectImage_tight (colors : ∀ c ∈ d.colors, c.OfSamples) (tolerance : IsSample d.tolerance)
    (channels : r.channels = 4) (width : 1 ≤ r.width) (height : 1 ≤ r.height) :
    ∃ found, d.detectImage r = .ok found ∧ (found = none ↔ d.blueAt r = ∅) ∧
      ∀ a, found = some a → a.Frames (d.blueAt r) r.width r.height := by
  have blue (c : Color) (mem : c ∈ d.palettes.blue) : c.OfSamples :=
    colors c (mem_colors.mpr (.inl mem))
  have words : d.oversized? = none :=
    oversized?_eq_none (fun c mem => (colors c mem).ofWords) tolerance.isWord
  have size : r.size ≠ 0 := by
    have area : 0 < r.height * r.width := Nat.mul_pos height width
    rw [Raster.size, channels]
    omega
  have unmarked := marks_blue_eq_nil_iff tolerance blue (r := r)
  cases marked : d.marks .blue r with
  | nil =>
      exact ⟨none, detectImage_of_none size channels words marked, iff_of_true rfl (unmarked.mp marked), by simp⟩
  | cons p ps =>
      have marked : d.marks .blue r ≠ [] := by simp [marked]
      obtain ⟨a, annotated, frames⟩ := annotate_frames tolerance blue marked
      refine ⟨some a, detectImage_of_ok size channels words marked annotated, ?_, by rintro _ ⟨⟩; exact frames⟩
      exact iff_of_false (by simp) (fun empty => marked (unmarked.mpr empty))

/-- Pure blue, and the standard settings otherwise. -/
def plain : Detector := { palettes := { blue := [⟨0, 0, 255⟩] } }

/-- Two pixels, the left one blue and the right one less so. -/
def shades : Raster := ⟨2, 1, 4, #[0, 0, 255, 255, 0, 80, 255, 200]⟩

theorem shades_tight :
    ∃ a, plain.detectImage shades = .ok (some a) ∧ a.Frames (plain.blueAt shades) shades.width shades.height := by
  obtain ⟨found, ok, unmarked, frames⟩ := detectImage_tight (d := plain) (r := shades) (by decide) (by decide) rfl
    (by decide) (by decide)
  cases found with
  | none =>
      have left : ⟨0, 0⟩ ∈ plain.blueAt shades := ⟨by decide, by decide, by decide⟩
      exact absurd (unmarked.mp rfl) (Set.nonempty_of_mem left).ne_empty
  | some a => exact ⟨a, ok, frames a rfl⟩

/-- Where one detector finds an annotation, so does one with the same blue colors that is no stricter, unless a part of
another color of it is no word of sixteen bits. -/
theorem detectImage_mono (blue : d.palettes.blue = e.palettes.blue)
    (colors : ∀ c ∈ d.palettes.blue, c.OfSamples) (hd : IsSample d.tolerance) (he : IsSample e.tolerance)
    (tolerance : d.tolerance ≤ e.tolerance) (alpha : e.alphaThreshold ≤ d.alphaThreshold)
    (found : d.detectImage r = .ok (some a)) :
    ((∀ c ∈ e.palettes.red ++ e.palettes.green, c.OfWords) →
      ∃ b, e.detectImage r = .ok (some b) ∧ a.markerCount ≤ b.markerCount ∧ b.border.Contains a.border) ∧
    ((∃ c ∈ e.palettes.red ++ e.palettes.green, ¬c.OfWords) →
      ∃ c ∈ e.palettes.red ++ e.palettes.green, ∃ n ∈ [c.red, c.green, c.blue], ¬IsWord n ∧
        e.detectImage r = .error (.oversized n)) := by
  have colors' : ∀ c ∈ e.palettes.blue, c.OfSamples := blue ▸ colors
  obtain ⟨⟨size, channels⟩, marked, -⟩ := of_detectImage found
  have more : d.blueAt r ⊆ e.blueAt r := blueAt_mono blue tolerance alpha
  have frames := frames_of_detectImage hd colors found
  constructor
  · intro words
    have words : e.oversized? = none := by
      refine oversized?_eq_none (fun c mem => ?_) he.isWord
      exact (mem_colors.mp mem).elim (fun mem => (colors' c mem).ofWords) (words c)
    have marked' : e.marks .blue r ≠ [] := by
      intro none
      rw [marks_blue_eq_nil_iff he colors'] at none
      exact marked ((marks_blue_eq_nil_iff hd colors).mpr (Set.subset_empty_iff.mp (none ▸ more)))
    obtain ⟨b, annotated, frames'⟩ := annotate_frames he colors' marked'
    exact ⟨b, detectImage_of_ok size channels words marked' annotated, frames.mono frames' more (e.blueAt_finite r)⟩
  · intro oversized
    obtain ⟨c, mem, n, part, large, first⟩ :=
      oversized?_spec (fun c mem => (colors' c mem).ofWords) he.isWord oversized
    exact ⟨c, mem, n, part, large, detectImage_of_oversized size channels first⟩

/-- What is found of two shades if only one is blue enough. -/
def shadesAnnotation : Annotation where
  imageWidth := 2
  imageHeight := 1
  border := ⟨0, 0, 0, 0⟩
  content := ⟨0, 0, 0⟩
  center := ⟨1, 0.5⟩
  rotation := 0
  borderThickness := 0
  markerCount := 1
  confidence := .real 1

theorem detectImage_shades : plain.detectImage shades = .ok (some shadesAnnotation) := rfl

/-- Pure blue, and a tolerance that takes in the lesser blue too. -/
def tolerant : Detector := { plain with tolerance := 90 }

theorem shades_mono :
    ∃ b, tolerant.detectImage shades = .ok (some b) ∧ shadesAnnotation.markerCount ≤ b.markerCount ∧
      b.border.Contains shadesAnnotation.border := by
  have mono := detectImage_mono (d := plain) (e := tolerant) rfl (by decide) (by decide) (by decide) (by decide)
    (by decide) detectImage_shades
  exact mono.1 (by decide)

/-- The same blue, and a red that is no color. -/
def vivid : Detector := { plain with palettes := { plain.palettes with red := [⟨40000, 0, 0⟩] } }

/-- Red colors do matter: one that is none takes the annotation from a detector with the same blue color. -/
theorem shades_oversized :
    (vivid.palettes.blue = plain.palettes.blue ∧ vivid.tolerance = plain.tolerance ∧
      vivid.alphaThreshold = plain.alphaThreshold) ∧
    plain.detectImage shades = .ok (some shadesAnnotation) ∧
    vivid.detectImage shades = .error (.oversized 40000) :=
  ⟨⟨rfl, rfl, rfl⟩, detectImage_shades, rfl⟩

end Detector

end SvgForm.Marker
