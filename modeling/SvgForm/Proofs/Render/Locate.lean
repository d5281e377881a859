import Mathlib.Data.List.Forall2
import Mathlib.Data.Option.Basic
import SvgForm.Form
import SvgForm.Proofs.Identity.Ensure
import SvgForm.Render.Basic
/-! # Locating fields

A field is parsed from an element of the document, and when the document is rendered the field is written
into the element that its identity leads to in the copy. The two are the same: whatever can start a field
has an identity, no two elements have the same one, and a copy has the identities of the document.
-/

namespace SvgForm

/-! ## Failing steps -/

theorem except_bind_ok {ε α β : Type} {x : Except ε α} {f : α → Except ε β} {b : β} :
    x >>= f = .ok b ↔ ∃ a, x = .ok a ∧ f a = .ok b := by
  cases x with
  | error e => simp [bind, Except.bind]
  | ok a => simp [bind, Except.bind]

theorem ok_of_toOption {ε α : Type} {x : Except ε α} {a : α} (h : x.toOption = some a) : x = .ok a := by
  cases x with
  | error e => cases h
  | ok b => rw [Option.some.inj h]

theorem forall₂_of_mapM_ok {ε α β : Type} {f : α → Except ε β} {l : List α} {made : List β}
    (h : l.mapM f = .ok made) : List.Forall₂ (fun a b => f a = .ok b) l made := by
  induction l generalizing made with
  | nil =>
      simp only [List.mapM_nil, pure, Except.pure, Except.ok.injEq] at h
      subst h
      exact .nil
  | cons a l ih =>
      simp only [List.mapM_cons, except_bind_ok, pure, Except.pure, Except.ok.injEq] at h
      obtain ⟨b, first, rest, later, rfl⟩ := h
      exact .cons first (ih later)

theorem exists_mapM_error {ε α β : Type} {f : α → Except ε β} {l : List α} {e : ε} (failed : l.mapM f = .error e) :
    ∃ a ∈ l, f a = .error e := by
  induction l with
  | nil => cases failed
  | cons a l ih =>
      rw [List.mapM_cons] at failed
      cases first : f a with
      | error e' =>
          rw [first] at failed
          cases failed
          exact ⟨a, List.mem_cons_self, first⟩
      | ok b =>
          cases rest : l.mapM f with
          | error e' =>
              rw [first, rest] at failed
              cases failed
              obtain ⟨a', mem, later⟩ := ih rest
              exact ⟨a', List.mem_cons_of_mem a mem, later⟩
          | ok bs =>
              rw [first, rest] at failed
              cases failed

theorem Field.check_eq (f : Field) : f.check = .ok f ∨ ∃ e, f.check = .error e := by
  unfold check
  repeat' first | exact .inl rfl | exact .inr ⟨_, rfl⟩ | split

/-- A field that passes the check is left as it is. -/
theorem Field.check_ok {f g : Field} (h : f.check = .ok g) : g = f := by
  rcases f.check_eq with ok | ⟨e, failed⟩
  · exact Except.ok.inj (h.symm.trans ok)
  · rw [failed] at h
    simp at h

/-! ## Where fields start -/

namespace Candidate

variable {all : List Candidate} {c : Candidate} {grouped : List String}

theorem openers_sublist (grouped : List String) (all : List Candidate) :
    (openers grouped all).Sublist all := by
  induction all generalizing grouped with
  | nil => exact .slnil
  | cons c all ih =>
      simp only [openers]
      split
      case isTrue => exact (ih grouped).cons_cons c
      case isFalse =>
        split
        case isTrue => exact (ih grouped).cons c
        case isFalse => exact (ih _).cons_cons c

/-- An option that starts a field is the first one of its base. -/
theorem head?_optionsOf (hc : c ∈ openers grouped all) (option : c.identifier.selectValue.isSome) :
    c.identifier.base ∉ grouped ∧ (optionsOf c.identifier.base all).head? = some c := by
  induction all generalizing grouped with
  | nil => simp [openers] at hc
  | cons a all ih =>
      simp only [openers] at hc
      split at hc
      case isTrue plain =>
        have other : c ≠ a := by
          rintro rfl
          simp_all
        obtain ⟨fresh, first⟩ := ih (List.mem_of_ne_of_mem other hc)
        have skipped : a.identifier.selectValue.isSome = false := by simpa using plain
        exact ⟨fresh, by simpa [optionsOf, skipped] using first⟩
      case isFalse choice =>
        have chooses : a.identifier.selectValue.isSome = true := by
          simpa [Option.isSome_iff_ne_none] using choice
        split at hc
        case isTrue known =>
          obtain ⟨fresh, first⟩ := ih hc
          have other : a.identifier.base ≠ c.identifier.base := by
            intro same
            exact fresh (same ▸ known)
          exact ⟨fresh, by simpa [optionsOf, other] using first⟩
        case isFalse new =>
          rcases List.mem_cons.mp hc with rfl | later
          · exact ⟨new, by simp [optionsOf, chooses]⟩
          · obtain ⟨fresh, first⟩ := ih later
            simp only [List.mem_cons, not_or] at fresh
            obtain ⟨other, fresh⟩ := fresh
            exact ⟨fresh, by simpa [optionsOf, Ne.symm other] using first⟩

/-- Whatever field it is, it has the identity, and it is not to be rotated. -/
theorem field_spec (c : Candidate) (all : List Candidate) (id : String) (identity : Option String) :
    (c.field all id identity).identity = identity ∧ (c.field all id identity).rotation = none := by
  cases made : c.option? with
  | some first => simp [field, made, selectField]
  | none =>
      simp only [field, made, plainField]
      split <;> exact ⟨rfl, rfl⟩

end Candidate

namespace Document

open UniqueKeys

variable {d : Document} {c : Candidate} {f : Field} {fs : List Field}

theorem mem_candidates {phrase : String} (hc : c ∈ d.candidates phrase) :
    c.handle ∈ d.handles ∧ d.get? c.handle "id" = some c.source ∧ c.handle ≠ root ∧
      d.isContent c.handle = true ∧ d.isPlaceholder c.handle phrase = false := by
  obtain ⟨h, hh, made⟩ := List.mem_filterMap.mp hc
  split at made
  case h_1 => simp at made
  case h_2 source found =>
    split at made
    case isTrue => simp at made
    case isFalse fits =>
      obtain rfl := Option.some.inj made
      simp only [not_or] at fits
      simpa [hh, found] using fits.2

/-- Candidates have different handles, which stand in document order. -/
theorem handles_candidates_sublist (d : Document) (phrase : String) :
    ((d.candidates phrase).map (·.handle)).Sublist d.handles := by
  rw [candidates]
  induction d.handles with
  | nil => exact .slnil
  | cons h rest ih =>
      rw [List.filterMap_cons]
      split
      case h_1 => exact ih.cons h
      case h_2 c made =>
        have here : c.handle = h := by
          split at made
          case h_1 => simp at made
          case h_2 =>
            split at made
            case isTrue => simp at made
            case isFalse => exact (congrArg Candidate.handle (Option.some.inj made)).symm
        rw [List.map_cons, here]
        exact ih.cons_cons h

/-- Whatever can start a field can have an identity. -/
theorem eligible_of_mem_candidates (hc : c ∈ d.candidates placeholderPhrase) : c.handle ∈ d.eligible := by
  obtain ⟨attached, _, below, content, shown⟩ := mem_candidates hc
  exact List.mem_filter.mpr ⟨attached, by simp [isEligible, below, content, shown]⟩

/-- The candidates at which the fields start, in document order. -/
def openers (d : Document) : List Candidate :=
  Candidate.openers [] (d.candidates placeholderPhrase)

/-- The field is parsed from the element of the candidate: from the first option if it is a select. -/
structure StartsAt (d : Document) (f : Field) (c : Candidate) : Prop where
  candidate : c ∈ d.candidates placeholderPhrase
  made : ∃ id, f = c.field (d.candidates placeholderPhrase) id
    ((d.identities identityAttribute).lookup c.handle)
  first : c.identifier.selectValue.isSome →
    (Candidate.optionsOf c.identifier.base (d.candidates placeholderPhrase)).head? = some c

theorem handles_openers_nodup (hd : d.WellFormed) : (d.openers.map (·.handle)).Nodup :=
  (((Candidate.openers_sublist [] _).map _).trans (handles_candidates_sublist d _)).nodup
    hd.handles_nodup

theorem length_claimAll (u : UniqueKeys) (keys : List String) :
    (u.claimAll keys).1.length = keys.length := by
  induction keys generalizing u with
  | nil => rfl
  | cons key keys ih => simp [claimAll, ih]

/-- The ids of the fields. -/
def fieldIds (d : Document) (phrase : String) : List String :=
  (claimAll { reserved := (d.candidates phrase).map (·.identifier.base) }
    ((Candidate.openers [] (d.candidates phrase)).map (·.identifier.base))).1

/-- The fields of a document are made at its openers, each with an id of its own. -/
theorem fields_made {phrase : String} (parsed : d.fields phrase = .ok fs) :
    List.Forall₂ (fun p f => f = p.1.field (d.candidates phrase) p.2
        ((d.identities identityAttribute).lookup p.1.handle))
      ((Candidate.openers [] (d.candidates phrase)).zip (d.fieldIds phrase)) fs :=
  (forall₂_of_mapM_ok parsed).imp fun _ _ checked => Field.check_ok checked

theorem length_fieldIds (d : Document) (phrase : String) :
    (d.fieldIds phrase).length = (Candidate.openers [] (d.candidates phrase)).length := by
  rw [fieldIds, length_claimAll, List.length_map]

/-- The fields of a document start at its openers, one at each. -/
theorem fields_startsAt (parsed : d.fields placeholderPhrase = .ok fs) :
    List.Forall₂ (fun c f => d.StartsAt f c) d.openers fs := by
  obtain ⟨length, each⟩ := List.forall₂_iff_zip.mp (fields_made parsed)
  have starts : List.Forall₂ (fun p f => d.StartsAt f p.1)
      (d.openers.zip (d.fieldIds placeholderPhrase)) fs := by
    refine List.forall₂_iff_zip.mpr ⟨length, fun {p f} mem => ?_⟩
    have opener : p.1 ∈ d.openers := (List.of_mem_zip (List.of_mem_zip mem).1).1
    exact {
      candidate := (Candidate.openers_sublist [] _).subset opener
      made := ⟨p.2, each mem⟩
      first := fun option => (Candidate.head?_optionsOf opener option).2 }
  have firsts : (d.openers.zip (d.fieldIds placeholderPhrase)).map Prod.fst = d.openers :=
    List.map_fst_zip (Nat.le_of_eq (d.length_fieldIds placeholderPhrase).symm)
  have := List.forall₂_map_left_iff (R := fun c f => d.StartsAt f c).mpr starts
  rwa [firsts] at this

/-! ## Where fields are found -/

theorem identities_copy (hd : d.WellFormed) (holder : String) :
    d.copy.identities holder = d.identities holder := by
  have keys : d.eligible.map (d.copy.baseKey holder) = d.eligible.map (d.baseKey holder) := by
    refine List.map_congr_left fun x hx => ?_
    have same := element_copy (eligible_subset hx)
    exact baseKey_congr (by rw [tag, tag, same]) (by rw [get?, get?, same]) (by rw [get?, get?, same])
  rw [identities, identities, eligible_copy hd, keys]

/-- Whatever has been done to the copy by then, a field is found where it was parsed. -/
theorem locateField?_eq (hd : d.WellFormed) (starts : d.StartsAt f c) (d' : Document) :
    d'.locateField? (d.copy.identities identityAttribute) f = some c.handle := by
  have eligible := eligible_of_mem_candidates starts.candidate
  obtain ⟨id, rfl⟩ := starts.made
  have identity := (c.field_spec (d.candidates placeholderPhrase) id
    ((d.identities identityAttribute).lookup c.handle)).1
  rw [lookup_identities hd eligible] at identity
  rw [locateField?, lookup_identities hd eligible, identity, identities_copy hd, Option.bind_some,
    if_neg (identityOf_ne_empty hd eligible), find?_identities hd eligible]
  rfl

/-- Every field that is parsed from a document is found in the copy at the element it was parsed from, and
so no two fields are found at one element. -/
theorem fields_located (hd : d.Reachable) (parsed : d.fields placeholderPhrase = .ok fs) :
    List.Forall₂ (fun c f => d.StartsAt f c ∧
        d.copy.locateField? (d.copy.identities identityAttribute) f = some c.handle) d.openers fs ∧
      (fs.map (d.copy.locateField? (d.copy.identities identityAttribute))).Nodup := by
  have located := (fields_startsAt parsed).imp fun c f starts =>
    And.intro starts (locateField?_eq hd.wellFormed starts d.copy)
  refine ⟨located, ?_⟩
  have found : List.Forall₂ (· = ·) (d.openers.map fun c => some c.handle)
      (fs.map (d.copy.locateField? (d.copy.identities identityAttribute))) :=
    List.forall₂_map_left_iff.mpr (List.forall₂_map_right_iff.mpr (located.imp fun _ _ h => h.2.symm))
  rw [List.forall₂_eq_eq_eq] at found
  rw [← found, ← Function.comp_def, ← List.map_map]
  exact (handles_openers_nodup hd.wellFormed).map (Option.some_injective _)

/-- An identity given before that is the id of two texts, and options of one base around another text. -/
def choices : Document :=
  ofTree (.node { name := "svg" } (.ofRoots [rectangle [(identityAttribute, "name.text")],
    { name := "text", attributes := [("id", "name.text")], text := "A" },
    { name := "text", attributes := [("id", "name.text")], text := "B" },
    rectangle [("id", "size.select_small")],
    { name := "text", attributes := [("id", "note.text")], text := "C" },
    rectangle [("id", "size.select_large")]]) .nil)

theorem choices_located : ∃ fs, choices.fields placeholderPhrase = .ok fs ∧
    fs.map (choices.copy.locateField? (choices.copy.identities identityAttribute)) =
      [some 2, some 3, some 4, some 5] ∧
    List.Forall₂ (fun c f => choices.StartsAt f c ∧
        choices.copy.locateField? (choices.copy.identities identityAttribute) f = some c.handle)
      choices.openers fs ∧
    (fs.map (choices.copy.locateField? (choices.copy.identities identityAttribute))).Nodup := by
  have reachable : choices.Reachable := .tree _ (by decide)
  have located : (choices.fields placeholderPhrase).toOption.map
      (·.map (choices.copy.locateField? (choices.copy.identities identityAttribute))) =
        some [some 2, some 3, some 4, some 5] := by decide
  cases parsed : choices.fields placeholderPhrase with
  | error e => simp [parsed, Except.toOption] at located
  | ok fs =>
      rw [parsed] at located
      exact ⟨fs, rfl, Option.some.inj located, fields_located reachable parsed⟩

end Document

end SvgForm
