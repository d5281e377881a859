import SvgForm.Proofs.Form.Refusal
import SvgForm.Proofs.Text.Trim
/-! # Fields as records

A field is read back from its record as it was, but for a name that is empty: in its place the name is made from the
id. The fields of a document have empty names where their bases consist of underscores and blanks.
-/

namespace SvgForm

/-! ## Entries -/

namespace Datum

variable {r : Datum} {entry : String}

theorem required_of_entry {s : String} (found : r.entry? entry = some (.ofText s)) : r.required entry = .ok s := by
  rw [required, found]
  rfl

/-- An entry is read as it was written, whatever a missing one would be read as. -/
theorem optional_of_entry {α : Type} {missing o : Option α} {read : Value → Option α} (write : α → Value)
    (reads : ∀ a, read (write a) = some a) (given : ∀ a, write a ≠ .null)
    (found : r.entry? entry = some (.value (o.elim .null write))) : r.optional entry missing read = .ok o := by
  rw [optional, found]
  cases o with
  | none => rfl
  | some a =>
      have back := reads a
      simp only [Option.elim_some]
      cases written : write a with
      | null => exact absurd written (given a)
      | bool | number | text =>
          rw [written] at back
          simp only [back]

theorem optional_of_text {missing o : Option String} (found : r.entry? entry = some (.ofText? o)) :
    r.optional entry missing asText? = .ok o :=
  optional_of_entry .text (fun _ => rfl) (fun _ => Value.noConfusion) found

theorem optional_of_int {missing o : Option Int} (found : r.entry? entry = some (.ofInt? o)) :
    r.optional entry missing asInt? = .ok o :=
  optional_of_entry (fun n => .number (.int n)) (fun _ => rfl) (fun _ => Value.noConfusion) found

theorem optional_of_number {missing o : Option Number} (found : r.entry? entry = some (.ofNumber? o)) :
    r.optional entry missing asNumber? = .ok o :=
  optional_of_entry .number (fun _ => rfl) (fun _ => Value.noConfusion) found

theorem optional_of_bool {missing o : Option Bool} (found : r.entry? entry = some (.ofBool? o)) :
    r.optional entry missing asBool? = .ok o :=
  optional_of_entry .bool (fun _ => rfl) (fun _ => Value.noConfusion) found

end Datum

theorem Kind.ofName?_name (k : Kind) : ofName? k.name = some k := by
  cases k <;> decide

/-- A step that succeeds hands on what it made. -/
theorem bind_of_ok {ε α β : Type} {x : Except ε α} {a : α} {next : α → Except ε β} {made : Except ε β}
    (first : x = .ok a) (rest : next a = made) : (x >>= next) = made := by
  rw [first]
  exact rest

theorem SelectOption.ofRecord_toRecord (o : SelectOption) : ofRecord o.toRecord = .ok o := by
  refine bind_of_ok (Datum.required_of_entry rfl) ?_
  refine bind_of_ok (Datum.optional_of_text rfl) ?_
  exact bind_of_ok (Datum.required_of_entry rfl) rfl

namespace Field

variable {f : Field}

theorem readKind_toRecord (f : Field) : readKind f.toRecord = .ok f.kind := by
  have found : f.toRecord.entry? "kind" = some (.value (.text f.kind.name)) := rfl
  simp only [readKind, found, Kind.ofName?_name]

theorem mapM_ofRecord (options : List SelectOption) :
    (options.map (·.toRecord)).mapM SelectOption.ofRecord = .ok options := by
  induction options with
  | nil => rfl
  | cons o options ih =>
      rw [List.map_cons, List.mapM_cons]
      refine bind_of_ok o.ofRecord_toRecord ?_
      exact bind_of_ok ih rfl

theorem readOptions_toRecord (f : Field) : readOptions f.toRecord = .ok f.options := by
  have found : f.toRecord.entry? "options" = some (.list (f.options.map (·.toRecord))) := rfl
  simp only [readOptions, found, mapM_ofRecord]

theorem readValue_of_entry {r : Datum} {entry : String} {v : Value} (found : r.entry? entry = some (.value v)) :
    readValue r entry = .ok v := by
  rw [readValue, found]

/-- The id as people read it. -/
def spacedId (f : Field) : String :=
  Text.onChars (Text.replaceChar '_' ' ') f.id

/-- The record of a field holds the field, but an empty name counts as a missing one. -/
theorem draft_toRecord (f : Field) :
    draft f.toRecord = .ok { f with name := ((some f.name).filter (· ≠ "")).getD f.spacedId } := by
  refine bind_of_ok (Datum.required_of_entry rfl) ?_
  refine bind_of_ok (Datum.optional_of_text (o := some f.name) rfl) ?_
  refine bind_of_ok f.readKind_toRecord ?_
  refine bind_of_ok (Datum.optional_of_text rfl) ?_
  refine bind_of_ok (Datum.optional_of_text rfl) ?_
  refine bind_of_ok (readValue_of_entry rfl) ?_
  refine bind_of_ok (readValue_of_entry rfl) ?_
  refine bind_of_ok (Datum.optional_of_int rfl) ?_
  refine bind_of_ok (Datum.optional_of_int rfl) ?_
  refine bind_of_ok (Datum.optional_of_text rfl) ?_
  refine bind_of_ok (Datum.optional_of_text rfl) ?_
  refine bind_of_ok (Datum.optional_of_text rfl) ?_
  refine bind_of_ok (Datum.optional_of_text rfl) ?_
  refine bind_of_ok (Datum.optional_of_bool rfl) ?_
  refine bind_of_ok f.readOptions_toRecord ?_
  refine bind_of_ok (Datum.optional_of_text rfl) ?_
  refine bind_of_ok (Datum.optional_of_number rfl) ?_
  refine bind_of_ok (Datum.optional_of_bool rfl) ?_
  refine bind_of_ok (Datum.optional_of_text rfl) ?_
  refine bind_of_ok (Datum.optional_of_text rfl) ?_
  exact bind_of_ok (Datum.optional_of_bool rfl) rfl

theorem id_ne_of_check (accepted : f.check = .ok f) : f.id ≠ "" := by
  intro empty
  rw [check, if_pos empty] at accepted
  cases accepted

theorem spacedId_ne (some : f.id ≠ "") : f.spacedId ≠ "" := by
  rw [spacedId, Text.onChars, Text.replaceChar, Ne, String.ofList_eq_empty_iff, List.map_eq_nil_iff]
  exact fun none => some (String.toList_eq_nil_iff.mp none)

theorem ofRecord_toRecord (accepted : f.check = .ok f) :
    ofRecord f.toRecord = .ok { f with name := ((some f.name).filter (· ≠ "")).getD f.spacedId } :=
  bind_of_ok f.draft_toRecord (check_congr (f := f) rfl rfl rfl rfl accepted)

theorem ofRecord_of_unnamed (accepted : f.check = .ok f) (unnamed : f.name = "") :
    ofRecord f.toRecord = .ok { f with name := f.spacedId } := by
  rw [ofRecord_toRecord accepted, unnamed]
  rfl

/-- Nothing of a field is lost but an empty name. -/
theorem ofRecord_toRecord_iff (accepted : f.check = .ok f) : ofRecord f.toRecord = .ok f ↔ f.name ≠ "" := by
  constructor
  · intro back unnamed
    rw [ofRecord_of_unnamed accepted unnamed] at back
    have name : f.spacedId = f.name := congrArg Field.name (Except.ok.inj back)
    exact spacedId_ne (id_ne_of_check accepted) (name.trans unnamed)
  · intro named
    have kept : (some f.name).filter (· ≠ "") = some f.name := by simp [named]
    rw [ofRecord_toRecord accepted, kept, Option.getD_some]

end Field

/-! ## Fields of documents -/

theorem Candidate.label_eq_empty_iff (c : Candidate) :
    c.label = "" ↔ ∀ x ∈ c.identifier.base.toList, x = '_' ∨ Text.isBlank x = true := by
  have blank : Text.isBlank ' ' = true := by decide
  rw [label, Text.onChars, String.ofList_eq_empty_iff, Identifier.humanize, Text.trim_eq_nil_iff, Text.replaceChar,
    List.forall_mem_map]
  refine forall₂_congr fun x _ => ?_
  split <;> simp [*]

theorem Candidate.field_name (c : Candidate) (all : List Candidate) (id : String) (identity : Option String) :
    (c.field all id identity).name = c.label := by
  cases made : c.option? with
  | some first => simp [field, made, selectField]
  | none =>
      simp only [field, made, plainField]
      split <;> rfl

namespace Document

variable {d : Document} {phrase : String} {fs : List Field} {f : Field}

/-- A field is made from an identified element, whose base it is named after. -/
theorem exists_candidate_of_mem (parsed : d.fields phrase = .ok fs) (mem : f ∈ fs) :
    f.check = .ok f ∧ ∃ h ∈ d.identified phrase, f.elementId = some (d.sourceOf h) ∧ f.name = (d.candidate h).label := by
  rw [fields_eq_mapM] at parsed
  obtain ⟨accepted, rfl⟩ := mapM_check.mp parsed
  obtain ⟨p, part, rfl⟩ := List.mem_map.mp mem
  have opener : p.1 ∈ d.candidates phrase := (Candidate.openers_sublist [] _).subset (List.of_mem_zip part).1
  rw [candidates_eq] at opener
  obtain ⟨h, identified, made⟩ := List.mem_map.mp opener
  refine ⟨accepted p part, h, identified, ?_, ?_⟩
  · rw [fieldOf, ← made]
    exact (d.fieldAt phrase h _ _).elementId
  · rw [fieldOf, made]
    exact Candidate.field_name _ _ _ _

/-- Of what every field has to be, a field is read back from its record just if its name is not empty; otherwise its
name is made from its id. A field of a document is read back just if the base of its element has a character that is
neither an underscore nor blank. -/
theorem fields_recorded_iff (d : Document) (phrase : String) :
    (∀ f : Field, f.check = .ok f → (Field.ofRecord f.toRecord = .ok f ↔ f.name ≠ "") ∧
      (f.name = "" → Field.ofRecord f.toRecord = .ok { f with name := f.spacedId })) ∧
    ∀ fs : List Field, d.fields phrase = .ok fs → ∀ f ∈ fs,
      f.check = .ok f ∧ ∃ h ∈ d.identified phrase, f.elementId = some (d.sourceOf h) ∧
        (Field.ofRecord f.toRecord = .ok f ↔
          ∃ c ∈ (d.identifierOf h).base.toList, c ≠ '_' ∧ Text.isBlank c = false) := by
  refine ⟨fun f accepted => ⟨Field.ofRecord_toRecord_iff accepted, Field.ofRecord_of_unnamed accepted⟩, ?_⟩
  intro fs parsed f mem
  obtain ⟨accepted, h, identified, source, name⟩ := exists_candidate_of_mem parsed mem
  have unnamed := (d.candidate h).label_eq_empty_iff
  rw [← name] at unnamed
  refine ⟨accepted, h, identified, source, ?_⟩
  rw [Field.ofRecord_toRecord_iff accepted, Ne, unnamed]
  simp [candidate]

/-- A text whose base is an underscore, and one with a base that says more. -/
def underscores : Document :=
  ofTree (.node { name := "svg" } (.ofRoots [
    { name := "text", attributes := [("id", "_.text")], text := "x" },
    { name := "text", attributes := [("id", "Full_Name.max_7")], text := "y" }]) .nil)

theorem underscores_recorded : ∃ a b, underscores.fields placeholderPhrase = .ok [a, b] ∧
    a.name = "" ∧ Field.ofRecord a.toRecord = .ok { a with name := " " } ∧
    b.name = "Full Name" ∧ Field.ofRecord b.toRecord = .ok b := by
  have read : (underscores.fields placeholderPhrase).toOption.map (·.map fun f => (f.id, f.name)) =
      some [("_", ""), ("Full_Name", "Full Name")] := by decide +kernel
  obtain ⟨fs, parsed, named⟩ := Option.map_eq_some_iff.mp read
  obtain ⟨a, b, rfl⟩ : ∃ a b, fs = [a, b] := List.length_eq_two.mp (by simpa using congrArg List.length named)
  simp only [List.map_cons, List.map_nil, List.cons.injEq, Prod.mk.injEq, and_true] at named
  obtain ⟨⟨id, unnamed⟩, -, name⟩ := named
  obtain ⟨accept, parts⟩ := fields_recorded_iff underscores placeholderPhrase
  have first := (parts _ (ok_of_toOption parsed) a (by simp)).1
  have second := (parts _ (ok_of_toOption parsed) b (by simp)).1
  refine ⟨a, b, ok_of_toOption parsed, unnamed, ?_, name, (accept b second).1.mpr (by rw [name]; decide)⟩
  have spaced : a.spacedId = " " := by
    rw [Field.spacedId, id]
    decide
  rw [(accept a first).2 unnamed, spaced]

/-- An underscore for a base leaves its field without a name, and that is lost on the way through a record. -/
theorem underscore_lost : ¬ ∀ (d : Document) (phrase : String) (fs : List Field), d.Reachable →
    d.fields phrase = .ok fs → ∀ f ∈ fs, Field.ofRecord f.toRecord = .ok f := by
  intro back
  have read : (underscores.fields placeholderPhrase).toOption.map
      (·.map fun f => ((Field.ofRecord f.toRecord).toOption.map (·.name), f.name)) =
      some [(some " ", ""), (some "Full Name", "Full Name")] := by decide +kernel
  obtain ⟨fs, parsed, names⟩ := Option.map_eq_some_iff.mp read
  have changed : (some " ", "") ∈ fs.map fun f => ((Field.ofRecord f.toRecord).toOption.map (·.name), f.name) := by
    rw [names]
    exact List.mem_cons_self
  obtain ⟨f, mem, pair⟩ := List.mem_map.mp changed
  obtain ⟨again, name⟩ := Prod.mk.inj pair
  rw [back _ _ fs (.tree _ (by decide)) (ok_of_toOption parsed) f mem] at again
  have kept : f.name = " " := Option.some.inj again
  rw [name] at kept
  exact absurd kept (by decide)

end Document

end SvgForm
