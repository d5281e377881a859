import Mathlib.Algebra.Group.Nat.Defs
import SvgForm.Moment.Pattern
import SvgForm.Proofs.Text.Cut
import SvgForm.Proofs.Text.Digit
import SvgForm.Proofs.Text.Trim
/-! # Moments read back

The ISO pattern of a date and that of a date with its time write each part with as many digits as the reader takes.
So a date comes back as its midnight, and a moment of whole seconds as itself, in every year of four digits.
-/

namespace SvgForm

namespace Text

variable {c : Char} {s : List Char}

theorem natOfDigits_replicate_append (k : Nat) (s : List Char) :
    natOfDigits (List.replicate k '0' ++ s) = natOfDigits s := by
  induction k with
  | zero => rfl
  | succ k ih => exact ih

theorem replaceChar_of_not_mem (d : Char) (absent : c ∉ s) : replaceChar c d s = s := by
  have kept : s.map (fun x => if x = c then d else x) = s.map id := by
    refine List.map_congr_left fun x mem => if_neg ?_
    rintro rfl
    exact absent mem
  rw [replaceChar, kept, List.map_id]

theorem before?_eq_none_of_not_mem (absent : c ∉ s) : before? [c] s = none := by
  rw [before?, Option.map_eq_none_iff, after?_eq_none_iff]
  intro start
  have mem : c ∈ s.reverse := start.subset (by simp)
  exact absent (List.mem_reverse.mp mem)

end Text

namespace Moment

variable {n width : Nat} {c : Char} {m : Moment}

/-! ## Padded numbers -/

theorem isDigit_of_mem_padded (mem : c ∈ padded width n) : c.isDigit = true := by
  rcases List.mem_append.mp mem with nought | digit
  · obtain rfl := List.eq_of_mem_replicate nought
    rfl
  · exact Text.isDigit_of_mem_natDigits digit

theorem length_padded (wide : 0 < width) (fits : n < 10 ^ width) : (padded width n).length = width := by
  have digits : (Text.natDigits n).length ≤ width := (Nat.length_toDigits_le_iff (by decide) wide).mpr fits
  rw [padded, List.length_append, List.length_replicate]
  omega

theorem natOfDigits_padded (width n : Nat) : Text.natOfDigits (padded width n) = n := by
  rw [padded, Text.natOfDigits_replicate_append, Text.natOfDigits_natDigits]

/-- A number is read back that has as many digits as are asked for. -/
theorem digits?_padded (wide : 0 < width) (fits : n < 10 ^ width) (rest : List Char) :
    digits? width (padded width n ++ rest) = some (n, rest) := by
  have length := length_padded wide fits
  have front : (padded width n ++ rest).take width = padded width n := List.take_left' length
  have back : (padded width n ++ rest).drop width = rest := List.drop_left' length
  have digits : (padded width n).all Char.isDigit = true :=
    List.all_eq_true.mpr fun c mem => isDigit_of_mem_padded mem
  rw [digits?, front, back, if_pos ⟨length, digits⟩, natOfDigits_padded]

theorem padded_ne_nil : padded width n ≠ [] :=
  List.append_ne_nil_of_right_ne_nil _ Nat.toDigits_ne_nil

/-- What begins with a padded number begins with a digit. -/
theorem padded_append_ne {rest s : List Char} (other : c.isDigit = false) : padded width n ++ rest ≠ c :: s := by
  intro same
  cases written : padded width n with
  | nil => exact padded_ne_nil written
  | cons d more =>
      rw [written] at same
      have digit : d.isDigit = true := isDigit_of_mem_padded (by rw [written]; exact List.mem_cons_self)
      exact Text.ne_of_isDigit digit other (List.cons.inj same).1

/-! ## What the patterns write -/

/-- The date of a moment in ISO form. -/
def dateText (m : Moment) : List Char :=
  padded 4 m.year ++ '-' :: (padded 2 m.month ++ '-' :: padded 2 m.day)

/-- The time of a moment in ISO form, to the second. -/
def timeText (m : Moment) : List Char :=
  padded 2 m.hour ++ ':' :: (padded 2 m.minute ++ ':' :: padded 2 m.second)

/-- Whether a character may stand in a moment in ISO form. -/
def IsoChar (c : Char) : Prop :=
  c.isDigit = true ∨ c ∈ "-:T".toList

theorem IsoChar.isBlank_eq_false (h : IsoChar c) : Text.isBlank c = false := by
  rcases h with digit | mark
  · obtain ⟨low, high⟩ : 48 ≤ c.toNat ∧ c.toNat ≤ 57 := Char.isDigit_iff_toNat.mp digit
    have clear : ∀ r ∈ Text.blankRanges, r.2 < 48 ∨ 57 < r.1 := by decide
    rw [Text.isBlank, Text.inRanges, List.any_eq_false]
    intro r mem
    have outside := clear r mem
    simp only [Bool.and_eq_true, decide_eq_true_eq]
    omega
  · have solid : "-:T".toList.all (fun c => !Text.isBlank c) = true := by decide
    simpa using List.all_eq_true.mp solid c mark

theorem not_isoChar_underscore : ¬ IsoChar '_' := by
  simp [IsoChar]

theorem not_isoChar_z : ¬ IsoChar 'Z' := by
  simp [IsoChar]

theorem of_mem_marked {mark : Char} {first second third : Nat}
    (mem : c ∈ padded width first ++ mark :: (padded 2 second ++ mark :: padded 2 third)) :
    c.isDigit = true ∨ c = mark := by
  simp only [List.mem_append, List.mem_cons] at mem
  rcases mem with digit | rfl | digit | rfl | digit
  · exact .inl (isDigit_of_mem_padded digit)
  · exact .inr rfl
  · exact .inl (isDigit_of_mem_padded digit)
  · exact .inr rfl
  · exact .inl (isDigit_of_mem_padded digit)

theorem of_mem_dateText (mem : c ∈ dateText m) : c.isDigit = true ∨ c = '-' :=
  of_mem_marked mem

theorem of_mem_timeText (mem : c ∈ timeText m) : c.isDigit = true ∨ c = ':' :=
  of_mem_marked mem

theorem isoChar_dateText (m : Moment) : ∀ c ∈ dateText m, IsoChar c := by
  intro c mem
  exact (of_mem_dateText mem).imp_right fun hyphen => by simp [hyphen]

theorem isoChar_momentText (m : Moment) : ∀ c ∈ dateText m ++ 'T' :: timeText m, IsoChar c := by
  intro c mem
  rcases List.mem_append.mp mem with date | time
  · exact isoChar_dateText m c date
  · rcases List.mem_cons.mp time with rfl | time
    · exact .inr (by decide)
    · exact (of_mem_timeText time).imp_right fun colon => by simp [colon]

theorem format_date (m : Moment) : m.format "YYYY-MM-DD".toList = dateText m := by
  have parts : patternItems "YYYY-MM-DD".toList =
      [.code .year, .text ['-'], .code .paddedMonth, .text ['-'], .code .paddedDay] := by decide +kernel
  have joined : (patternItems "YYYY-MM-DD".toList).flatMap (·.write m) = dateText m := by
    rw [parts]
    simp [PatternItem.write, Code.write, dateText]
  rw [format, joined]
  exact Text.replaceChar_of_not_mem ' ' fun mem => not_isoChar_underscore (isoChar_dateText m _ mem)

theorem format_moment (m : Moment) : m.format "YYYY-MM-DDTHH:mm:ss".toList = dateText m ++ 'T' :: timeText m := by
  have parts : patternItems "YYYY-MM-DDTHH:mm:ss".toList =
      [.code .year, .text ['-'], .code .paddedMonth, .text ['-'], .code .paddedDay, .text ['T'], .code .paddedHour,
        .text [':'], .code .paddedMinute, .text [':'], .code .paddedSecond] := by decide +kernel
  have joined : (patternItems "YYYY-MM-DDTHH:mm:ss".toList).flatMap (·.write m) = dateText m ++ 'T' :: timeText m := by
    rw [parts]
    simp [PatternItem.write, Code.write, dateText, timeText]
  rw [format, joined]
  exact Text.replaceChar_of_not_mem ' ' fun mem => not_isoChar_underscore (isoChar_momentText m _ mem)

/-! ## What the reader makes of it -/

/-- The parts of a moment have as many digits as they are written with. -/
structure Fits (m : Moment) : Prop where
  year : m.year < 10 ^ 4
  month : m.month < 10 ^ 2
  day : m.day < 10 ^ 2
  hour : m.hour < 10 ^ 2
  minute : m.minute < 10 ^ 2
  second : m.second < 10 ^ 2

theorem daysInMonth_le (year month : Nat) : daysInMonth year month ≤ 31 := by
  have lengths : ∀ n ∈ monthLengths year, n ≤ 31 := by
    simp only [monthLengths]
    split <;> decide
  rw [daysInMonth]
  split
  case isTrue => exact Nat.zero_le 31
  case isFalse =>
    cases found : (monthLengths year)[month - 1]? with
    | none => exact Nat.zero_le 31
    | some n => exact lengths n (List.mem_of_getElem? found)

theorem month_le_of_daysInMonth {year month : Nat} (some : 1 ≤ daysInMonth year month) : month ≤ 12 := by
  by_contra later
  have none : (monthLengths year)[month - 1]? = none := by
    rw [List.getElem?_eq_none_iff, monthLengths]
    simp only [List.length_cons, List.length_nil]
    omega
  rw [daysInMonth, none, if_neg (by omega)] at some
  cases some

theorem fits_of_isValid (valid : m.isValid = true) : Fits m := by
  simp only [isValid, Bool.and_eq_true, decide_eq_true_eq] at valid
  obtain ⟨⟨⟨⟨⟨⟨⟨-, year⟩, first⟩, last⟩, hour⟩, minute⟩, second⟩, -⟩ := valid
  have short := daysInMonth_le m.year m.month
  have month := month_le_of_daysInMonth (first.trans last)
  exact ⟨by omega, by omega, by omega, by omega, by omega, by omega⟩

theorem readDate?_dateText (fits : Fits m) (rest : List Char) :
    readDate? (dateText m ++ rest) = some ({ year := m.year, month := m.month, day := m.day }, rest) := by
  have whole : dateText m ++ rest =
      padded 4 m.year ++ '-' :: (padded 2 m.month ++ '-' :: (padded 2 m.day ++ rest)) := by simp [dateText]
  rw [whole, readDate?, digits?_padded (by decide) fits.year, Option.bind_some]
  dsimp only
  split
  -- a month begins with a digit, so no week follows the hyphen
  case h_1 s week => exact absurd (List.cons.inj week).2 (padded_append_ne (by decide))
  case h_2 s week => simp at week
  case h_3 s none months =>
    obtain ⟨-, rfl⟩ := List.cons.inj months
    rw [digits?_padded (by decide) fits.month]
    simp [digits?_padded (by decide) fits.day]
  case h_4 s none none' other => exact absurd rfl (other _)

/-- A part of a time that a colon follows is read, and the next part after the colon. -/
theorem readParts?_colon {k : Clock} {colons : Option Bool} {parts part : Nat} {after : List Char} (fits : n < 10 ^ 2)
    (parted : colons.getD true = true) (more : after ≠ []) :
    readParts? k colons (parts + 1) part (padded 2 n ++ ':' :: after) =
      readParts? (k.setPart part n) (some true) parts (part + 1) after := by
  rw [readParts?, digits?_padded (by decide) fits]
  simp [parted, more]

theorem readParts?_last {k : Clock} {colons : Option Bool} {parts part : Nat} (fits : n < 10 ^ 2) :
    readParts? k colons (parts + 1) part (padded 2 n) = some (k.setPart part n) := by
  have read := digits?_padded (by decide) fits []
  rw [List.append_nil] at read
  rw [readParts?, read]
  rfl

theorem readClock?_timeText (fits : Fits m) :
    readClock? (timeText m) = some { hour := m.hour, minute := m.minute, second := m.second } := by
  rw [readClock?, timeText, readParts?_colon fits.hour rfl (by simp), readParts?_colon fits.minute rfl padded_ne_nil,
    readParts?_last fits.second]
  rfl

theorem startsOffset_of_mem_timeText (mem : c ∈ timeText m) : startsOffset c = false := by
  rcases of_mem_timeText mem with digit | rfl
  · have plus : c ≠ '+' := Text.ne_of_isDigit digit (by decide)
    have minus : c ≠ '-' := Text.ne_of_isDigit digit (by decide)
    have mark : c ≠ 'Z' := Text.ne_of_isDigit digit (by decide)
    simp [startsOffset, plus, minus, mark]
  · rfl

theorem withTime?_timeText (fits : Fits m) (d : Moment) : withTime? d (timeText m) =
    some { d with hour := m.hour, minute := m.minute, second := m.second, microsecond := 0 } := by
  have front : ((timeText m).takeWhile fun c => !startsOffset c) = timeText m :=
    List.takeWhile_eq_self_iff.mpr fun c mem => by simp [startsOffset_of_mem_timeText mem]
  have back : ((timeText m).dropWhile fun c => !startsOffset c) = [] :=
    List.dropWhile_eq_nil_iff.mpr fun c mem => by simp [startsOffset_of_mem_timeText mem]
  rw [withTime?, front, back, readClock?_timeText fits]
  rfl

/-- A text without blanks and marks for universal time is read as it is. -/
theorem ofSource?_text {s : List Char} (iso : ∀ c ∈ s, IsoChar c) :
    ofSource? (.value (.text (.ofList s))) = readIso? s := by
  have trimmed : Text.trim s = s :=
    Text.trim_of_solid_ends (fun c first => (iso c (List.mem_of_mem_head? first)).isBlank_eq_false)
      fun c last => (iso c (List.mem_of_mem_getLast? last)).isBlank_eq_false
  have unmarked : Text.before? ['Z'] s = none :=
    Text.before?_eq_none_of_not_mem fun mem => not_isoChar_z (iso 'Z' mem)
  simp only [ofSource?, Value.literal, String.toList_ofList, trimmed, unmarked]

/-- A date that is written with the ISO pattern is read as its midnight, and a moment of whole seconds as itself. -/
theorem ofSource?_format :
    (∀ m : Moment, m.isValid = true → m.microsecond = 0 → m.offset = none →
        ofSource? (.value (.text (.ofList (formatSource (.moment m) "YYYY-MM-DDTHH:mm:ss".toList)))) = some m) ∧
      ∀ year month day, isValid { year, month, day } = true →
        ofSource? (.value (.text (.ofList (formatSource (.moment { year, month, day }) "YYYY-MM-DD".toList)))) =
          some { year, month, day } := by
  constructor
  · intro m valid whole naive
    have fits := fits_of_isValid valid
    have written : formatSource (.moment m) "YYYY-MM-DDTHH:mm:ss".toList = dateText m ++ 'T' :: timeText m :=
      format_moment m
    rw [written, ofSource?_text (isoChar_momentText m), readIso?, readDate?_dateText fits]
    simp only [Option.bind_some, withTime?_timeText fits]
    -- all parts are read back but those that are not written
    have same : { m with microsecond := 0, offset := none } = m := by rw [← whole, ← naive]
    rw [same, Option.filter_some, if_pos valid]
  · intro year month day valid
    have fits := fits_of_isValid valid
    have read := readDate?_dateText fits []
    rw [List.append_nil] at read
    have written : formatSource (.moment { year, month, day }) "YYYY-MM-DD".toList = dateText { year, month, day } :=
      format_date _
    rw [written, ofSource?_text (isoChar_dateText _), readIso?, read]
    simp [valid]

/-- The last second of a leap day in a year of one digit, and the last day there is. -/
theorem lastDays_read_back :
    let m : Moment := { year := 4, month := 2, day := 29, hour := 23, minute := 59, second := 59 }
    let last : Moment := { year := 9999, month := 12, day := 31 }
    m.isValid = true ∧ m.microsecond = 0 ∧ m.offset = none ∧ last.isValid = true ∧
      formatSource (.moment m) "YYYY-MM-DDTHH:mm:ss".toList = "0004-02-29T23:59:59".toList ∧
      ofSource? (.value (.text "0004-02-29T23:59:59")) = some m ∧
      ofSource? (.value (.text (.ofList (formatSource (.moment last) "YYYY-MM-DD".toList)))) = some last := by
  intro m last
  have written : formatSource (.moment m) "YYYY-MM-DDTHH:mm:ss".toList = "0004-02-29T23:59:59".toList := by
    decide +kernel
  have valid : m.isValid = true ∧ last.isValid = true := by decide
  have moments := ofSource?_format.1 m valid.1 rfl rfl
  rw [written, String.ofList_toList] at moments
  exact ⟨valid.1, rfl, rfl, valid.2, written, moments, ofSource?_format.2 9999 12 31 valid.2⟩

end Moment

end SvgForm
