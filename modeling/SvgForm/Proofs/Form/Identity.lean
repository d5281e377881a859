import SvgForm.Proofs.Render.Fields
/-! # Fields and identities

A form leaves out placeholders by the phrase it is read with, identities leave them out by the reserved one. A field
stands therefore at an element that has an identity, or at one that only identities take for a placeholder; then it
has none.
-/

namespace SvgForm

namespace Document

variable {d : Document} {phrase holder : String} {h x : Handle} {fs : List Field}

/-! ## Which elements have an identity -/

theorem lookup_identities_eq_some_iff (hd : d.WellFormed) {identity : String} :
    (d.identities holder).lookup h = some identity ↔ h ∈ d.eligible ∧ d.identityOf holder h = identity := by
  by_cases eligible : h ∈ d.eligible
  · rw [lookup_identities hd eligible, Option.some.injEq, and_iff_right eligible]
  · have absent : (d.identities holder).lookup h = none := by
      rw [List.lookup_eq_none_iff, hd.identities_eq holder]
      intro p mem
      obtain ⟨y, hy, rfl⟩ := List.mem_map.mp mem
      simpa using fun same : h = y => eligible (same ▸ hy)
    simp [absent, eligible]

/-- An identity is that of one element only. -/
theorem lookup_identities_inj (hd : d.WellFormed) {identity : String}
    (of_h : (d.identities holder).lookup h = some identity)
    (of_x : (d.identities holder).lookup x = some identity) : h = x := by
  obtain ⟨hh, first⟩ := (lookup_identities_eq_some_iff hd).mp of_h
  obtain ⟨hx, second⟩ := (lookup_identities_eq_some_iff hd).mp of_x
  exact (hd.assigns_identityOf holder).inj hh hx (first.trans second.symm)

theorem lookup_identities_eq_none_iff (hd : d.WellFormed) :
    (d.identities holder).lookup h = none ↔ h ∉ d.eligible := by
  rw [Option.eq_none_iff_forall_ne_some]
  constructor
  · intro without eligible
    exact without _ (lookup_identities hd eligible)
  · intro out identity found
    exact out ((lookup_identities_eq_some_iff hd).mp found).1

/-- An identified element is eligible unless it is a placeholder by the reserved phrase. -/
theorem mem_eligible_iff_of_identified (mem : h ∈ d.identified phrase) :
    h ∈ d.eligible ↔ d.isPlaceholder h placeholderPhrase = false := by
  obtain ⟨attached, fits⟩ := List.mem_filter.mp mem
  obtain ⟨below, content, -, -⟩ := of_decide_eq_true fits
  rw [eligible, List.mem_filter, and_iff_right attached]
  simp [isEligible, below, content]

/-! ## Which fields have one -/

theorem fieldMade_identity (d : Document) (phrase : String) (p : Handle × String) :
    (d.fieldMade phrase p).identity = (d.identities identityAttribute).lookup p.1 :=
  (Candidate.field_spec _ _ _ _).1

/-- The fields are made one at each start, in document order. -/
theorem fields_forall₂ (hd : d.WellFormed) (parsed : d.fields phrase = .ok fs) {R : Handle → Field → Prop}
    (each : ∀ s ∈ d.starts phrase, ∀ id, R s (d.fieldMade phrase (s, id))) :
    List.Forall₂ R (d.starts phrase) fs := by
  rw [fields_eq hd] at parsed
  obtain ⟨-, rfl⟩ := mapM_check.mp parsed
  have length : (d.fieldIds phrase).length = (d.starts phrase).length := by
    rw [d.length_fieldIds phrase, openers_eq hd, List.length_map]
  have pairs : ∀ p ∈ (d.starts phrase).zip (d.fieldIds phrase), R p.1 (d.fieldMade phrase p) :=
    fun p mem => each p.1 (List.of_mem_zip mem).1 p.2
  have made := List.forall₂_map_left_iff (f := Prod.fst).mpr
    (List.forall₂_map_right_iff (f := d.fieldMade phrase).mpr (List.forall₂_same.mpr pairs))
  rwa [List.map_fst_zip (Nat.le_of_eq length.symm)] at made

/-- The field that stands at an element and has its identity. It has none just if the element is a placeholder by
the reserved phrase. -/
structure IdentifiedAt (d : Document) (phrase : String) (s : Handle) (f : Field) : Prop where
  stands : d.FieldAt phrase s f
  identity : f.identity = (d.identities identityAttribute).lookup s
  none_iff : f.identity = none ↔ d.isPlaceholder s placeholderPhrase = true

theorem identifiedAt_fieldMade (hd : d.WellFormed) (start : h ∈ d.starts phrase) (id : String) :
    d.IdentifiedAt phrase h (d.fieldMade phrase (h, id)) where
  stands := d.fieldAt phrase h _ _
  identity := d.fieldMade_identity phrase _
  none_iff := by
    rw [fieldMade_identity, lookup_identities_eq_none_iff hd,
      mem_eligible_iff_of_identified (mem_starts_iff.mp start).1, Bool.not_eq_false]

/-- Fields have the identities of the elements at which they stand, and no two have the same one. -/
theorem fields_identity (hd : d.Reachable) (parsed : d.fields phrase = .ok fs) :
    List.Forall₂ (d.IdentifiedAt phrase) (d.starts phrase) fs ∧ (fs.filterMap (·.identity)).Nodup := by
  have hwf := hd.wellFormed
  have stand := fields_forall₂ hwf parsed fun s start id => identifiedAt_fieldMade hwf start id
  refine ⟨stand, ?_⟩
  have same : fs.map (·.identity) = (d.starts phrase).map fun s => (d.identities identityAttribute).lookup s := by
    rw [← List.forall₂_eq_eq_eq, List.forall₂_map_left_iff, List.forall₂_map_right_iff]
    exact (stand.imp fun _ _ spec => spec.identity).flip
  have found : fs.filterMap (·.identity) =
      (d.starts phrase).filterMap fun s => (d.identities identityAttribute).lookup s := by
    have both := congrArg (List.filterMap id) same
    rwa [List.filterMap_map, List.filterMap_map] at both
  have distinct : (d.starts phrase).Nodup := (hwf.handles_nodup.filter _).filter _
  rw [found]
  exact distinct.filterMap fun s t identity of_s of_t => lookup_identities_inj hwf of_s of_t

/-- Two elements of one id, the first of which shows the reserved phrase, and a placeholder by another phrase. -/
def fillers : Document :=
  ofTree (.node { name := "svg" } (.ofRoots [
    { name := "text", attributes := [("id", "A.text")], text := "Test document" },
    { name := "text", attributes := [("id", "A.text")], text := "Hello" },
    { name := "text", attributes := [("id", "B.text")], text := "lorem" }]) .nil)

theorem fillers_identity : ∃ fs, fillers.fields "Lorem" = .ok fs ∧
    fs.map (fun f => (f.id, f.identity)) = [("A", none), ("A_2", some "A.text")] ∧
    fillers.starts "Lorem" = [1, 2] ∧
    List.Forall₂ (fillers.IdentifiedAt "Lorem") (fillers.starts "Lorem") fs ∧
    (fs.filterMap (·.identity)).Nodup := by
  have reachable : fillers.Reachable := .tree _ (by decide)
  have read : (fillers.fields "Lorem").toOption.map (·.map fun f => (f.id, f.identity)) =
      some [("A", none), ("A_2", some "A.text")] := by decide +kernel
  obtain ⟨fs, parsed, carried⟩ := Option.map_eq_some_iff.mp read
  exact ⟨fs, ok_of_toOption parsed, carried, by decide +kernel, fields_identity reachable (ok_of_toOption parsed)⟩

/-- A field stands without identity where only the reserved phrase makes its element a placeholder. -/
theorem fillers_unidentified : ¬ ∀ (phrase : String) (d : Document) (fs : List Field), d.Reachable →
    d.fields phrase = .ok fs → ∀ f ∈ fs, f.identity ≠ none := by
  intro carries
  have read : (fillers.fields "Lorem").toOption.map (·.map (·.identity)) = some [none, some "A.text"] := by
    decide +kernel
  obtain ⟨fs, parsed, identities⟩ := Option.map_eq_some_iff.mp read
  have without : none ∈ fs.map (·.identity) := by
    rw [identities]
    exact List.mem_cons_self
  obtain ⟨f, mem, none⟩ := List.mem_map.mp without
  exact carries "Lorem" fillers fs (.tree _ (by decide)) (ok_of_toOption parsed) f mem none

end Document

end SvgForm
