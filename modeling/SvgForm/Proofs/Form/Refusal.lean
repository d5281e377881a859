import SvgForm.Proofs.Render.Fields
/-! # Refused forms

Of what every field has to fulfil, an identifier can miss one thing only: that the id is not empty. Bounds that are
read from digits are not negative, and what a token says about hiding is one of the two ways to hide. The id of a
field is a numbered form of its base, and so the fields of a document are refused where a base is empty. Before that
they are refused where a bound has too many digits to be read.
-/

namespace SvgForm

/-! ## Which bounds cannot be read -/

namespace Identifier

variable {i : Identifier} {limit : Option Nat} {t digits rest : List Char}

/-- A token is a bound with more digits than are allowed. A newline may end it. -/
def LongBound (limit : Option Nat) (token : String) : Prop :=
  ∃ n ∈ limit, ∃ word ∈ ["max_", "min_"], ∃ digits : List Char, ∃ ending ∈ [[], ['\n']],
    token.toList = word.toList ++ digits ++ ending ∧ (∀ c ∈ digits, Text.isDigit c = true) ∧ n < digits.length

theorem after_bound_iff : (Text.after? "max_".toList t).or (Text.after? "min_".toList t) = some rest ↔
    ∃ word ∈ ["max_", "min_"], t = word.toList ++ rest := by
  simp only [Option.or_eq_some_iff, Text.after?_eq_some_iff, Text.after?_eq_none_iff, List.mem_cons,
    List.not_mem_nil, or_false, exists_eq_or_imp, exists_eq_left]
  refine or_congr_right (and_iff_right_of_imp ?_)
  rintro rfl ⟨other, same⟩
  have second := congrArg (·[1]?) same
  simp at second

theorem boundDigits?_eq_some_iff : boundDigits? t = some digits ↔
    (∃ word ∈ ["max_", "min_"], ∃ ending ∈ [[], ['\n']], t = word.toList ++ digits ++ ending) ∧
      digits ≠ [] ∧ ∀ c ∈ digits, Text.isDigit c = true := by
  rw [boundDigits?, Option.filter_eq_some_iff, decide_eq_true_eq, List.all_eq_true, Option.map_eq_some_iff]
  refine and_congr_left fun ⟨_, all⟩ => ?_
  have line : '\n' ∉ digits := fun mem => absurd (all '\n' mem) (by decide)
  simp only [after_bound_iff]
  constructor
  · rintro ⟨rest, ⟨word, known, rfl⟩, rfl⟩
    obtain ⟨ending, mem, same⟩ := Text.eq_dropNewlineAtEnd_append rest
    exact ⟨word, known, ending, mem, by rw [List.append_assoc, ← same]⟩
  · rintro ⟨word, known, ending, mem, rfl⟩
    refine ⟨digits ++ ending, ⟨word, known, List.append_assoc ..⟩, ?_⟩
    rcases List.mem_pair.mp mem with rfl | rfl
    · rw [List.append_nil, Text.dropNewlineAtEnd_of_not_mem line]
    · exact Text.dropNewlineAtEnd_append digits

theorem longBound_iff {n : Nat} {token : String} :
    LongBound (some n) token ↔ ∃ digits, boundDigits? token.toList = some digits ∧ n < digits.length := by
  simp only [LongBound, boundDigits?_eq_some_iff, Option.mem_def, Option.some.injEq, exists_eq_left']
  constructor
  · rintro ⟨word, known, digits, ending, mem, same, all, more⟩
    exact ⟨digits, ⟨⟨word, known, ending, mem, same⟩, List.ne_nil_of_length_pos (by omega), all⟩, more⟩
  · rintro ⟨digits, ⟨⟨word, known, ending, mem, same⟩, -, all⟩, more⟩
    exact ⟨word, known, digits, ending, mem, same, all, more⟩

theorem isSome_excess?_iff : (i.excess? limit).isSome ↔ ∃ token ∈ i.tokens, LongBound limit token := by
  cases limit with
  | none => simp [excess?, LongBound]
  | some n =>
      rw [excess?, Option.bind_some, List.findSome?_isSome_iff]
      refine exists_congr fun token => and_congr_right fun _ => ?_
      rw [longBound_iff]
      cases boundDigits? token.toList with
      | none => simp
      | some digits => by_cases more : n < digits.length <;> simp [more]

end Identifier

/-! ## Which fields are refused -/

/-- A field whose bounds and way to hide are in order is refused only for want of an id. -/
theorem Field.check_eq_ite {f : Field} (max : ∀ n ∈ f.maxLength, 0 ≤ n) (min : ∀ n ∈ f.minLength, 0 ≤ n)
    (hidden : ∀ w ∈ f.hiddenWhen, w = "checked" ∨ w = "unchecked") :
    f.check = if f.id = "" then .error .emptyId else .ok f := by
  have hides : ∀ w, f.hiddenWhen = some w → ¬ (w ≠ "checked" ∧ w ≠ "unchecked") := fun w found other =>
    (hidden w found).elim other.1 other.2
  by_cases empty : f.id = ""
  · rw [check, if_pos empty, if_pos empty]
    rfl
  · rw [check, if_neg empty, if_neg empty]
    repeat' split
    -- Every clause is fulfilled, so what is left are the ways through the check on which nothing is thrown.
    all_goals first
      | rfl
      | exact absurd ‹_ < (0 : Int)› (Int.not_lt.mpr (max _ ‹_›))
      | exact absurd ‹_ < (0 : Int)› (Int.not_lt.mpr (min _ ‹_›))
      | exact absurd ‹_ ∧ _› (hides _ ‹_›)

/-- What an identifier limits its field to is in order. -/
theorem Candidate.field_limits {c : Candidate} (hidden : ∀ w ∈ c.identifier.hiddenWhen, w = "checked" ∨ w = "unchecked")
    (all : List Candidate) (id : String) (identity : Option String) :
    (∀ n ∈ (c.field all id identity).maxLength, 0 ≤ n) ∧ (∀ n ∈ (c.field all id identity).minLength, 0 ≤ n) ∧
      ∀ w ∈ (c.field all id identity).hiddenWhen, w = "checked" ∨ w = "unchecked" := by
  have counted : ∀ o : Option Nat, ∀ n ∈ o.map Int.ofNat, 0 ≤ n := by
    intro o n mem
    obtain ⟨m, -, rfl⟩ := Option.mem_map.mp mem
    exact Int.natCast_nonneg m
  cases made : c.option? with
  | some first => simp [field, made, selectField]
  | none =>
      simp only [field, made, plainField]
      split
      case isTrue => exact ⟨counted _, counted _, hidden⟩
      case isFalse => simp

/-- A field that is made from an identifier is refused only for want of an id. -/
theorem Candidate.check_field {c : Candidate} (hidden : ∀ w ∈ c.identifier.hiddenWhen, w = "checked" ∨ w = "unchecked")
    (all : List Candidate) (id : String) (identity : Option String) :
    (c.field all id identity).check = if id = "" then .error .emptyId else .ok (c.field all id identity) := by
  obtain ⟨max, min, hides⟩ := c.field_limits hidden all id identity
  rw [Field.check_eq_ite max min hides, Document.field_id]

/-! ## Which bases are claimed -/

theorem UniqueKeys.mem_claimAll_of_mem {reserved keys : List String} {key : String} (known : keys ⊆ reserved)
    (mem : key ∈ keys) : key ∈ (claimAll { reserved } keys).1 := by
  obtain ⟨before, after, rfl, first⟩ := List.eq_append_cons_of_mem mem
  rw [claimAll_eq_mapIdx known, List.mem_mapIdx]
  refine ⟨before.length, by simp, ?_⟩
  simp [List.count_eq_zero.mpr first, occurrence]

/-- A form of a key is empty only if the key is. -/
theorem UniqueKeys.empty_mem_claimAll_iff {reserved keys : List String} (known : keys ⊆ reserved) :
    "" ∈ (claimAll { reserved } keys).1 ↔ "" ∈ keys := by
  refine ⟨fun given => ?_, mem_claimAll_of_mem known⟩
  rw [claimAll_eq_mapIdx known, List.mem_mapIdx] at given
  obtain ⟨i, inside, empty⟩ := given
  by_contra absent
  have some : keys[i] ≠ "" := by
    intro none
    exact absent (none ▸ List.getElem_mem inside)
  exact disambiguate_ne_empty some _ empty

theorem Candidate.exists_opener_iff {all : List Candidate} {grouped : List String} {base : String}
    (fresh : base ∉ grouped) :
    (∃ c ∈ openers grouped all, c.identifier.base = base) ↔ ∃ c ∈ all, c.identifier.base = base := by
  induction all generalizing grouped with
  | nil => rfl
  | cons c all ih =>
      simp only [openers]
      split
      case isTrue plain => rw [List.exists_mem_cons_iff, List.exists_mem_cons_iff, ih fresh]
      case isFalse choice =>
        split
        case isTrue known =>
          have other : c.identifier.base ≠ base := by
            rintro rfl
            exact fresh known
          rw [ih fresh, List.exists_mem_cons_iff, or_iff_right other]
        case isFalse new =>
          rw [List.exists_mem_cons_iff, List.exists_mem_cons_iff]
          refine or_congr_right' fun other => ih ?_
          simp [fresh, Ne.symm other]

namespace Document

variable {d : Document} {phrase : String} {e : FieldError}

theorem hiddenWhen_of_candidate {c : Candidate} (mem : c ∈ d.candidates phrase) :
    ∀ w ∈ c.identifier.hiddenWhen, w = "checked" ∨ w = "unchecked" := by
  rw [candidates_eq] at mem
  obtain ⟨h, -, rfl⟩ := List.mem_map.mp mem
  exact Identifier.hiddenWhen_parse (d.sourceOf h)

theorem empty_mem_fieldIds_iff (d : Document) (phrase : String) :
    "" ∈ d.fieldIds phrase ↔ ∃ h ∈ d.identified phrase, ".".toList <+: (d.sourceOf h).toList := by
  have known := ((Candidate.openers_sublist [] (d.candidates phrase)).map (·.identifier.base)).subset
  have claimed : (∃ c ∈ Candidate.openers [] (d.candidates phrase), c.identifier.base = "") ↔
      ∃ h ∈ d.identified phrase, (d.identifierOf h).base = "" := by
    rw [Candidate.exists_opener_iff List.not_mem_nil, candidates_eq]
    simp [candidate]
  rw [fieldIds, UniqueKeys.empty_mem_claimAll_iff known, List.mem_map, claimed]
  refine exists_congr fun h => and_congr_right fun mem => ?_
  have some : d.sourceOf h ≠ "" := by
    intro none
    have blank : trimmed (d.sourceOf h) = "" := by
      rw [none]
      decide
    exact (of_decide_eq_true (List.mem_filter.mp mem).2).2.2.2 blank
  exact Identifier.base_parse_eq_empty_iff some

/-- The openers with the ids of their fields. -/
def fieldParts (d : Document) (phrase : String) : List (Candidate × String) :=
  (Candidate.openers [] (d.candidates phrase)).zip (d.fieldIds phrase)

/-- The field that is made of an opener and an id. -/
def fieldOf (d : Document) (phrase : String) (p : Candidate × String) : Field :=
  p.1.field (d.candidates phrase) p.2 ((d.identities identityAttribute).lookup p.1.handle)

theorem fields_eq_mapM (d : Document) (phrase : String) :
    d.fields phrase = (d.fieldParts phrase).mapM fun p => (d.fieldOf phrase p).check :=
  rfl

theorem map_snd_fieldParts (d : Document) (phrase : String) : (d.fieldParts phrase).map Prod.snd = d.fieldIds phrase :=
  List.map_snd_zip (Nat.le_of_eq (d.length_fieldIds phrase))

theorem check_fieldOf {p : Candidate × String} (mem : p ∈ d.fieldParts phrase) :
    (d.fieldOf phrase p).check = if p.2 = "" then .error .emptyId else .ok (d.fieldOf phrase p) := by
  have opener := (List.of_mem_zip mem).1
  exact Candidate.check_field (hiddenWhen_of_candidate ((Candidate.openers_sublist [] _).subset opener)) _ _ _

theorem eq_emptyId_of_fields (refused : d.fields phrase = .error e) : e = .emptyId := by
  rw [fields_eq_mapM] at refused
  obtain ⟨p, mem, failed⟩ := exists_mapM_error refused
  rw [check_fieldOf mem] at failed
  split at failed
  case isTrue => exact (Except.error.inj failed).symm
  case isFalse => cases failed

theorem exists_fields_iff (d : Document) (phrase : String) :
    (∃ fs, d.fields phrase = .ok fs) ↔ "" ∉ d.fieldIds phrase := by
  have passes : ∀ p ∈ d.fieldParts phrase, (d.fieldOf phrase p).check = .ok (d.fieldOf phrase p) ↔ p.2 ≠ "" := by
    intro p mem
    rw [check_fieldOf mem]
    split <;> simp_all
  simp only [fields_eq_mapM, mapM_check, exists_and_left, exists_eq, and_true]
  rw [forall₂_congr passes, ← map_snd_fieldParts, List.mem_map]
  constructor
  · rintro each ⟨p, mem, empty⟩
    exact each p mem empty
  · exact fun absent p mem empty => absent ⟨p, mem, empty⟩

theorem fields_eq_emptyId_iff (d : Document) (phrase : String) :
    d.fields phrase = .error .emptyId ↔ ∃ h ∈ d.identified phrase, ".".toList <+: (d.sourceOf h).toList := by
  have returned := d.exists_fields_iff phrase
  rw [empty_mem_fieldIds_iff] at returned
  rw [← not_iff_not, ← returned]
  cases read : d.fields phrase with
  | ok fs => simp
  | error e =>
      obtain rfl := eq_emptyId_of_fields read
      simp

/-- An identified element has a bound with more digits than are allowed. -/
def HasLongBound (d : Document) (phrase : String) (limit : Option Nat) : Prop :=
  ∃ h ∈ d.identified phrase, ∃ token ∈ (d.identifierOf h).tokens, Identifier.LongBound limit token

theorem isSome_excess?_candidates (d : Document) (phrase : String) (limit : Option Nat) :
    ((d.candidates phrase).findSome? (·.identifier.excess? limit)).isSome ↔ d.HasLongBound phrase limit := by
  simp only [List.findSome?_isSome_iff, candidates_eq, List.mem_map, exists_exists_and_eq_and,
    Identifier.isSome_excess?_iff, HasLongBound, candidate]

/-- Reading the fields of a document ends in one of three ways: they are refused, because an identified element has
a bound of too many digits; or else because the id of one begins with a point; or they are returned. -/
theorem fields_refused_iff (limit : Option Nat) (d : Document) (phrase : String) :
    ((∃ e, d.readFields limit phrase = .error (.tooManyDigits e)) ↔ d.HasLongBound phrase limit) ∧
      (d.readFields limit phrase = .error .emptyId ↔
        ¬ d.HasLongBound phrase limit ∧ ∃ h ∈ d.identified phrase, ".".toList <+: (d.sourceOf h).toList) ∧
      ((∃ fs, d.readFields limit phrase = .ok fs) ↔
        ¬ d.HasLongBound phrase limit ∧ ∀ h ∈ d.identified phrase, ¬ ".".toList <+: (d.sourceOf h).toList) ∧
      ∀ fs, d.readFields limit phrase = .ok fs → d.fields phrase = .ok fs := by
  have pointed := d.fields_eq_emptyId_iff phrase
  have returned := d.exists_fields_iff phrase
  rw [empty_mem_fieldIds_iff] at returned
  rw [← isSome_excess?_candidates, readFields]
  cases (d.candidates phrase).findSome? (·.identifier.excess? limit) with
  | some e => simp
  | none =>
      have known : ∀ e, d.fields phrase ≠ .error (.tooManyDigits e) := fun e refused =>
        nomatch eq_emptyId_of_fields refused
      refine ⟨by simp [known], by simpa using pointed, ?_, fun _ => id⟩
      simpa using returned

/-- A single text with an id. -/
def labelled (id : String) : Document :=
  ofTree (.node { name := "svg" } (.ofRoots [{ name := "text", attributes := [("id", id)], text := "x" }]) .nil)

/-- An identifier with an empty base keeps the fields of its document from being read. -/
theorem pointed_refused : ¬ ∀ (d : Document) (phrase : String), d.Reachable →
    ∃ fs, d.readFields Identifier.digitLimit phrase = .ok fs := by
  intro reads
  obtain ⟨fs, parsed⟩ := reads (labelled ".text") placeholderPhrase (.tree _ (by decide))
  have refused : ((labelled ".text").readFields Identifier.digitLimit placeholderPhrase).toOption.isNone = true := by
    decide
  rw [parsed] at refused
  cases refused

/-- A bound of four digits keeps them from being read where three are allowed. -/
example : ((labelled "A.max_1234").readFields (some 3) placeholderPhrase).toOption.isNone = true ∧
    ((labelled "A.max_123").readFields (some 3) placeholderPhrase).toOption.isSome = true := by decide

end Document

end SvgForm
