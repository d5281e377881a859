import SvgForm.Proofs.Identifier.Token
import SvgForm.Proofs.Identity.Occurrences
import SvgForm.Proofs.Render.Locate
/-! # Fields and elements

The identified elements of a document are parted among its fields. One that stands for no choice has a field of
its own; those that stand for choices and share a base have one field together, where the first of them is.
-/

namespace SvgForm

namespace Document

variable {d : Document} {phrase : String} {h s x : Handle} {fs : List Field} {f : Field}

/-! ## Identified elements -/

/-- The id of an element; the empty text where it has none. -/
def sourceOf (d : Document) (h : Handle) : String :=
  (d.get? h "id").getD ""

def identifierOf (d : Document) (h : Handle) : Identifier :=
  .parse (d.sourceOf h)

/-- The elements below the root that are content and no placeholders, and whose id is not blank, in document
order. -/
def identified (d : Document) (phrase : String) : List Handle :=
  d.handles.filter fun h =>
    h ≠ root ∧ d.isContent h ∧ d.isPlaceholder h phrase = false ∧ trimmed (d.sourceOf h) ≠ ""

/-- Whether a token of the identifier stands for a choice. -/
def IsOption (d : Document) (h : Handle) : Prop :=
  ∃ token ∈ (d.identifierOf h).tokens, "select_".toList <+: token.toList

instance (d : Document) (h : Handle) : Decidable (d.IsOption h) :=
  inferInstanceAs (Decidable (∃ token ∈ (d.identifierOf h).tokens, "select_".toList <+: token.toList))

/-- The elements of a list that stand for choices and share the base of an element. -/
def optionsLike (d : Document) (h : Handle) (l : List Handle) : List Handle :=
  l.filter fun x => d.IsOption x ∧ (d.identifierOf x).base = (d.identifierOf h).base

def group (d : Document) (phrase : String) (h : Handle) : List Handle :=
  d.optionsLike h (d.identified phrase)

/-- The elements at which fields stand: those that stand for no choice, and the first one of every group. -/
def starts (d : Document) (phrase : String) : List Handle :=
  (d.identified phrase).filter fun h => ¬ d.IsOption h ∨ (d.group phrase h).head? = some h

/-- What a reader chooses. -/
def shownAs (d : Document) (x : Handle) : String :=
  if d.displayText x = "" then Text.onChars Identifier.humanize ((d.identifierOf x).selectValue.getD "")
  else d.displayText x

structure ShownBy (d : Document) (x : Handle) (o : SelectOption) : Prop where
  source : o.source = d.sourceOf x
  value : o.value = d.shownAs x
  label : o.label = some (d.shownAs x)

/-- The field that stands at an element: a select field with the options of the element's group, if the element
stands for a choice. -/
structure FieldAt (d : Document) (phrase : String) (h : Handle) (f : Field) : Prop where
  elementId : f.elementId = some (d.sourceOf h)
  plain : ¬ d.IsOption h → f.kind ≠ .select ∧ f.options = []
  choice : d.IsOption h → f.kind = .select ∧ List.Forall₂ d.ShownBy (d.group phrase h) f.options

theorem isSome_selectValue_iff (d : Document) (h : Handle) :
    (d.identifierOf h).selectValue.isSome = true ↔ d.IsOption h :=
  Identifier.isSome_selectValue_parse (d.sourceOf h)

/-- What the form knows of an element. -/
def candidate (d : Document) (h : Handle) : Candidate where
  handle := h
  source := d.sourceOf h
  identifier := d.identifierOf h
  text := d.displayText h

theorem candidates_eq (d : Document) (phrase : String) :
    d.candidates phrase = (d.identified phrase).map d.candidate := by
  rw [candidates, identified, ← List.filterMap_eq_map', List.filterMap_filter]
  apply List.filterMap_congr
  intro h _
  rcases Option.eq_none_or_eq_some (d.get? h "id") with found | ⟨source, found⟩
  · have blank : trimmed "" = "" := by decide
    simp [found, sourceOf, blank]
  · have source_eq : d.sourceOf h = source := by rw [sourceOf, found, Option.getD_some]
    by_cases fits : h ≠ root ∧ d.isContent h ∧ d.isPlaceholder h phrase = false ∧ trimmed source ≠ ""
    · obtain ⟨below, content, shown, some⟩ := fits
      simp [found, candidate, identifierOf, source_eq, below, content, shown, some]
    · have out : trimmed source = "" ∨ h = root ∨ (!d.isContent h) = true ∨ d.isPlaceholder h phrase = true := by
        by_contra stays
        simp only [not_or, Bool.not_eq_true, Bool.not_eq_false'] at stays
        exact fits ⟨stays.2.1, stays.2.2.1, stays.2.2.2, stays.1⟩
      simp only [found, source_eq, fits, out, if_true, decide_false, Bool.false_eq_true, if_false]

theorem optionsOf_map (d : Document) (h : Handle) (l : List Handle) :
    Candidate.optionsOf (d.identifierOf h).base (l.map d.candidate) = (d.optionsLike h l).map d.candidate := by
  rw [Candidate.optionsOf, optionsLike, List.filter_map]
  apply congrArg (List.map d.candidate)
  apply List.filter_congr
  intro x _
  rw [Function.comp_apply, Bool.eq_iff_iff, Bool.and_eq_true, decide_eq_true_iff, decide_eq_true_iff]
  exact and_congr_left fun _ => d.isSome_selectValue_iff x

/-! ## Where fields start -/

/-- Whether a field starts at an element of a list: it stands for no choice, or it is the first option in the
list of a base that had none before. -/
def Opens (d : Document) (grouped : List String) (l : List Handle) (h : Handle) : Prop :=
  ¬ d.IsOption h ∨ (d.identifierOf h).base ∉ grouped ∧ (d.optionsLike h l).head? = some h

instance (d : Document) (grouped : List String) (l : List Handle) : DecidablePred (d.Opens grouped l) :=
  fun h => inferInstanceAs (Decidable (¬ d.IsOption h ∨
    (d.identifierOf h).base ∉ grouped ∧ (d.optionsLike h l).head? = some h))

variable {a : Handle} {l : List Handle} {grouped : List String}

theorem optionsLike_cons_of_not
    (other : ¬ (d.IsOption a ∧ (d.identifierOf a).base = (d.identifierOf h).base)) :
    d.optionsLike h (a :: l) = d.optionsLike h l := by
  rw [optionsLike, List.filter_cons_of_neg (by simpa using other), optionsLike]

theorem opens_cons_of_not (plain : ¬ d.IsOption a) : d.Opens grouped (a :: l) h ↔ d.Opens grouped l h := by
  rw [Opens, optionsLike_cons_of_not fun both => plain both.1, Opens]

theorem opens_cons_of_mem (known : (d.identifierOf a).base ∈ grouped) :
    d.Opens grouped (a :: l) h ↔ d.Opens grouped l h := by
  unfold Opens
  by_cases same : (d.identifierOf a).base = (d.identifierOf h).base
  · simp [← same, known]
  · rw [optionsLike_cons_of_not fun both => same both.2]

theorem opens_cons_of_option (option : d.IsOption a) (other : h ≠ a) :
    d.Opens grouped (a :: l) h ↔ d.Opens ((d.identifierOf a).base :: grouped) l h := by
  unfold Opens
  by_cases same : (d.identifierOf a).base = (d.identifierOf h).base
  · simp [optionsLike, option, same, Ne.symm other]
  · rw [optionsLike_cons_of_not fun both => same both.2, List.mem_cons, or_iff_right (Ne.symm same)]

theorem opens_self (fresh : (d.identifierOf a).base ∉ grouped) : d.Opens grouped (a :: l) a := by
  by_cases option : d.IsOption a
  · exact .inr ⟨fresh, by simp [optionsLike, option]⟩
  · exact .inl option

theorem openers_map (distinct : l.Nodup) (grouped : List String) :
    Candidate.openers grouped (l.map d.candidate) = (l.filter (d.Opens grouped l)).map d.candidate := by
  induction l generalizing grouped with
  | nil => rfl
  | cons a l ih =>
      obtain ⟨absent, distinct⟩ := List.nodup_cons.mp distinct
      have chooses := d.isSome_selectValue_iff a
      rw [List.map_cons, Candidate.openers]
      by_cases option : d.IsOption a
      · have opens : ¬ (d.candidate a).identifier.selectValue.isNone = true := by
          simpa [candidate, Option.isSome_iff_ne_none] using chooses.mpr option
        rw [if_neg opens]
        by_cases known : (d.identifierOf a).base ∈ grouped
        · have closed : ¬ d.Opens grouped (a :: l) a := by simp [Opens, option, known]
          have same : l.filter (d.Opens grouped (a :: l)) = l.filter (d.Opens grouped l) :=
            List.filter_congr fun h _ => decide_eq_decide.mpr (opens_cons_of_mem known)
          rw [if_pos (by simpa [candidate] using known), List.filter_cons_of_neg (by simpa using closed), same,
            ih distinct]
        · have same : l.filter (d.Opens grouped (a :: l)) =
              l.filter (d.Opens ((d.identifierOf a).base :: grouped) l) := by
            apply List.filter_congr
            intro h mem
            have other : h ≠ a := by
              rintro rfl
              exact absent mem
            exact decide_eq_decide.mpr (opens_cons_of_option option other)
          rw [if_neg (by simpa [candidate] using known), List.filter_cons_of_pos (by simpa using opens_self known),
            List.map_cons, same, ih distinct]
          rfl
      · have plain : (d.candidate a).identifier.selectValue.isNone = true := by
          rw [Option.isNone_iff_eq_none, ← Option.not_isSome_iff_eq_none]
          exact chooses.not.mpr option
        have same : l.filter (d.Opens grouped (a :: l)) = l.filter (d.Opens grouped l) :=
          List.filter_congr fun h _ => decide_eq_decide.mpr (opens_cons_of_not option)
        rw [if_pos plain, List.filter_cons_of_pos (by simp [Opens, option]), List.map_cons, same, ih distinct]

theorem openers_eq (hd : d.WellFormed) (phrase : String) :
    Candidate.openers [] (d.candidates phrase) = (d.starts phrase).map d.candidate := by
  have distinct : (d.identified phrase).Nodup := hd.handles_nodup.filter _
  rw [candidates_eq, openers_map distinct, starts]
  apply congrArg (List.map d.candidate)
  apply List.filter_congr
  intro h _
  apply decide_eq_decide.mpr
  simp only [Opens, List.not_mem_nil, not_false_eq_true, true_and, group]

/-! ## What stands at an element -/

theorem optionsOf_eq (d : Document) (phrase : String) (h : Handle) :
    Candidate.optionsOf (d.identifierOf h).base (d.candidates phrase) = (d.group phrase h).map d.candidate := by
  rw [candidates_eq, optionsOf_map, group]

theorem isOption_of_mem_group (mem : x ∈ d.group phrase h) : d.IsOption x := by
  have both := List.of_mem_filter mem
  simp only [decide_eq_true_eq] at both
  exact both.1

theorem shownBy_option? (option : d.IsOption x) :
    ∃ o, (d.candidate x).option? = some o ∧ d.ShownBy x o := by
  obtain ⟨value, found⟩ := Option.isSome_iff_exists.mp ((d.isSome_selectValue_iff x).mpr option)
  have read : (d.candidate x).option? = some { value := d.shownAs x, label := some (d.shownAs x), source := d.sourceOf x } := by
    have identifier : (d.candidate x).identifier = d.identifierOf x := rfl
    rw [Candidate.option?, identifier, found, shownAs, found]
    rfl
  exact ⟨_, read, rfl, rfl, rfl⟩

theorem forall₂_filterMap {α β : Type} {R : α → β → Prop} {g : α → Option β} {l : List α}
    (each : ∀ a ∈ l, ∃ b, g a = some b ∧ R a b) : List.Forall₂ R l (l.filterMap g) := by
  induction l with
  | nil => exact .nil
  | cons a l ih =>
      obtain ⟨b, made, related⟩ := each a List.mem_cons_self
      rw [List.filterMap_cons_some made]
      exact .cons related (ih fun c mem => each c (List.mem_cons_of_mem a mem))

theorem fieldAt (d : Document) (phrase : String) (h : Handle) (id : String) (identity : Option String) :
    d.FieldAt phrase h ((d.candidate h).field (d.candidates phrase) id identity) := by
  by_cases option : d.IsOption h
  · obtain ⟨o, made, -⟩ := shownBy_option? option
    have options : List.Forall₂ d.ShownBy (d.group phrase h)
        ((Candidate.optionsOf (d.identifierOf h).base (d.candidates phrase)).filterMap (·.option?)) := by
      rw [optionsOf_eq, List.filterMap_map]
      exact forall₂_filterMap fun x mem => shownBy_option? (isOption_of_mem_group mem)
    rw [Candidate.field, made]
    exact ⟨rfl, fun plain => absurd option plain, fun _ => ⟨rfl, options⟩⟩
  · have nothing : (d.candidate h).option? = none := by
      have absent := Option.not_isSome_iff_eq_none.mp ((d.isSome_selectValue_iff h).not.mpr option)
      rw [Candidate.option?, candidate, absent, Option.map_none]
    have kind := Identifier.kind_parse_ne_select (d.sourceOf h)
    rw [Candidate.field, nothing]
    simp only [Candidate.plainField]
    split
    case isTrue =>
      refine ⟨rfl, fun _ => ⟨?_, rfl⟩, fun choice => absurd choice option⟩
      have identifier : (d.candidate h).identifier.kind = (Identifier.parse (d.sourceOf h)).kind := rfl
      rw [identifier]
      cases found : (Identifier.parse (d.sourceOf h)).kind with
      | none => simp
      | some k => simpa [found] using kind
    case isFalse => exact ⟨rfl, fun _ => ⟨by simp, rfl⟩, fun choice => absurd choice option⟩

theorem field_id (c : Candidate) (all : List Candidate) (id : String) (identity : Option String) :
    (c.field all id identity).id = id := by
  cases made : c.option? with
  | some first => simp [Candidate.field, made, Candidate.selectField]
  | none =>
      simp only [Candidate.field, made, Candidate.plainField]
      split <;> rfl

open UniqueKeys in
theorem fieldIds_nodup (d : Document) (phrase : String) : (d.fieldIds phrase).Nodup := by
  have known := ((Candidate.openers_sublist [] (d.candidates phrase)).map (·.identifier.base)).subset
  rw [fieldIds, claimAll_eq_mapIdx known]
  exact occurrences_nodup known

/-- The group of an option is that of every element with its base. -/
theorem group_congr (same : (d.identifierOf x).base = (d.identifierOf h).base) :
    d.group phrase x = d.group phrase h := by
  rw [group, group, optionsLike, optionsLike, same]

theorem mem_group_iff : x ∈ d.group phrase h ↔
    x ∈ d.identified phrase ∧ d.IsOption x ∧ (d.identifierOf x).base = (d.identifierOf h).base := by
  simp [group, optionsLike]

theorem mem_starts_iff : s ∈ d.starts phrase ↔
    s ∈ d.identified phrase ∧ (¬ d.IsOption s ∨ (d.group phrase s).head? = some s) := by
  simp [starts]

theorem existsUnique_start (mem : h ∈ d.identified phrase) :
    ∃! s, s ∈ d.starts phrase ∧ (s = h ∨ d.IsOption s ∧ h ∈ d.group phrase s) := by
  by_cases option : d.IsOption h
  · have own : h ∈ d.group phrase h := mem_group_iff.mpr ⟨mem, option, rfl⟩
    -- The group is the same for all its options, and so is its first one.
    obtain ⟨first, rest, group⟩ := List.exists_cons_of_ne_nil (List.ne_nil_of_mem own)
    obtain ⟨listed, chooses, base⟩ := mem_group_iff.mp (group ▸ List.mem_cons_self : first ∈ d.group phrase h)
    refine ⟨first, ⟨mem_starts_iff.mpr ⟨listed, .inr ?_⟩, .inr ⟨chooses, ?_⟩⟩, ?_⟩
    · rw [group_congr base, group, List.head?_cons]
    · rwa [group_congr base]
    · rintro s ⟨start, belongs⟩
      have same : d.IsOption s ∧ d.group phrase s = d.group phrase h := by
        rcases belongs with rfl | ⟨choice, member⟩
        · exact ⟨option, rfl⟩
        · exact ⟨choice, group_congr (mem_group_iff.mp member).2.2.symm⟩
      have head := (mem_starts_iff.mp start).2.resolve_left (not_not_intro same.1)
      rw [same.2, group, List.head?_cons] at head
      exact (Option.some.inj head).symm
  · refine ⟨h, ⟨mem_starts_iff.mpr ⟨mem, .inl option⟩, .inl rfl⟩, ?_⟩
    rintro s ⟨-, same | ⟨-, member⟩⟩
    · exact same
    · exact absurd (isOption_of_mem_group member) option

/-- The fields, in document order, with the elements and the ids they are made of. -/
theorem fields_stand (hd : d.WellFormed) (parsed : d.fields phrase = .ok fs) :
    List.Forall₂ (d.FieldAt phrase) (d.starts phrase) fs ∧ fs.map (·.id) = d.fieldIds phrase := by
  have made := fields_made parsed
  have length := d.length_fieldIds phrase
  rw [openers_eq hd] at made length
  have stand : List.Forall₂ (fun p f => d.FieldAt phrase p.1.handle f ∧ p.2 = f.id)
      (((d.starts phrase).map d.candidate).zip (d.fieldIds phrase)) fs := by
    refine List.forall₂_iff_zip.mpr ⟨made.length_eq, fun {p f} mem => ?_⟩
    obtain ⟨h, -, candidate⟩ := List.mem_map.mp (List.of_mem_zip (List.of_mem_zip mem).1).1
    rw [(List.forall₂_iff_zip.mp made).2 mem, ← candidate]
    exact ⟨d.fieldAt phrase h _ _, (field_id _ _ _ _).symm⟩
  have elements : (((d.starts phrase).map d.candidate).zip (d.fieldIds phrase)).map (·.1.handle) =
      d.starts phrase := by
    rw [← Function.comp_def, ← List.map_map, List.map_fst_zip (Nat.le_of_eq length.symm), List.map_map]
    exact List.map_id _
  have ids : (((d.starts phrase).map d.candidate).zip (d.fieldIds phrase)).map (·.2) = d.fieldIds phrase :=
    List.map_snd_zip (Nat.le_of_eq length)
  constructor
  · have fields := List.forall₂_map_left_iff (R := d.FieldAt phrase).mpr (stand.imp fun _ _ both => both.1)
    rwa [elements] at fields
  · have same : List.Forall₂ (· = ·) ((((d.starts phrase).map d.candidate).zip (d.fieldIds phrase)).map (·.2))
        (fs.map (·.id)) :=
      List.forall₂_map_left_iff.mpr (List.forall₂_map_right_iff.mpr (stand.imp fun _ _ both => both.2))
    rw [List.forall₂_eq_eq_eq, ids] at same
    exact same.symm

/-- The fields of a document stand one at each of the starts, in document order, and have different ids; every
identified element is a start or an option of the select field that stands at just one of them. -/
theorem fields_partition (hd : d.Reachable) (parsed : d.fields phrase = .ok fs) :
    List.Forall₂ (d.FieldAt phrase) (d.starts phrase) fs ∧ (d.starts phrase).Nodup ∧
      (∀ h ∈ d.identified phrase,
        ∃! s, s ∈ d.starts phrase ∧ (s = h ∨ d.IsOption s ∧ h ∈ d.group phrase s)) ∧
      (fs.map (·.id)).Nodup := by
  obtain ⟨stand, ids⟩ := fields_stand hd.wellFormed parsed
  refine ⟨stand, (hd.wellFormed.handles_nodup.filter _).filter _, fun h mem => existsUnique_start mem, ?_⟩
  rw [ids]
  exact d.fieldIds_nodup phrase

/-- Options of one base among elements that have this base for themselves, or what looks like its second
form. -/
def sizes : Document :=
  ofTree (.node { name := "svg" } (.ofRoots [rectangle [("id", "size")], rectangle [("id", "size.select_small")],
    rectangle [("id", "size_2")], rectangle [("id", "size.select_large")], rectangle [("id", "size.text")]]) .nil)

theorem sizes_partition : ∃ fs, sizes.fields placeholderPhrase = .ok fs ∧
    fs.map (·.id) = ["size", "size_3", "size_2", "size_4"] ∧
    sizes.starts placeholderPhrase = [1, 2, 3, 5] ∧ sizes.group placeholderPhrase 2 = [2, 4] ∧
    List.Forall₂ (sizes.FieldAt placeholderPhrase) (sizes.starts placeholderPhrase) fs ∧
    (sizes.starts placeholderPhrase).Nodup ∧
    (∀ h ∈ sizes.identified placeholderPhrase, ∃! s, s ∈ sizes.starts placeholderPhrase ∧
      (s = h ∨ sizes.IsOption s ∧ h ∈ sizes.group placeholderPhrase s)) ∧
    (fs.map (·.id)).Nodup := by
  have reachable : sizes.Reachable := .tree _ (by decide)
  have ids : (sizes.fields placeholderPhrase).toOption.map (·.map (·.id)) =
      some ["size", "size_3", "size_2", "size_4"] := by decide
  cases parsed : sizes.fields placeholderPhrase with
  | error e => simp [parsed, Except.toOption] at ids
  | ok fs =>
      rw [parsed] at ids
      exact ⟨fs, rfl, Option.some.inj ids, by decide, by decide, fields_partition reachable parsed⟩

end Document

end SvgForm
