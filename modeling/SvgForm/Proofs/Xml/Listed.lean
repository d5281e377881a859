import SvgForm.Proofs.Xml.Spaces
/-! # Listed names

A name is listed in short form, and a listed name is expanded again by its short form. So a name in a known namespace
or in none is found under what it is listed as; any other is listed as its label alone.
-/

namespace SvgForm.Xml

variable {name uri label space : String}

/-! ## Names with a namespace -/

/-- Whether a name that opens a namespace closes it. -/
def Closed (name : String) : Prop :=
  ['\x7b'] <+: name.toList → '\x7d' ∈ name.toList

instance : DecidablePred Closed := fun name =>
  inferInstanceAs (Decidable (['\x7b'] <+: name.toList → '\x7d' ∈ name.toList))

theorem expanded_braced (uri label : String) : ['\x7b'] <+: (expanded uri label).toList := by
  rw [toList_expanded]
  exact List.prefix_append _ _

theorem closed_expanded (uri label : String) : Closed (expanded uri label) := by
  intro _
  rw [toList_expanded]
  simp

/-- A name is a label, or it is one in a namespace. -/
theorem Closed.cases (closed : Closed name) :
    ¬ ['\x7b'] <+: name.toList ∨ ∃ uri label, '\x7d' ∉ uri.toList ∧ name = expanded uri label := by
  by_cases braced : ['\x7b'] <+: name.toList
  · right
    obtain ⟨rest, opened⟩ := braced
    have later : '\x7d' ∈ rest := by
      have mem := closed ⟨rest, opened⟩
      rw [← opened] at mem
      simpa using mem
    obtain ⟨before, after, rfl, first⟩ := List.eq_append_cons_of_mem later
    refine ⟨.ofList before, .ofList after, by simpa using first, ?_⟩
    rw [← String.toList_inj, toList_expanded, String.toList_ofList, String.toList_ofList, ← opened]
    rfl
  · exact .inl braced

theorem localName_expanded (closed : '\x7d' ∉ uri.toList) (label : String) : localName (expanded uri label) = label := by
  rw [localName, toList_expanded]
  simp [Text.cutAtChar?_append closed]

/-! ## Expanding -/

theorem qualify_of_braced (braced : ['\x7b'] <+: name.toList) : qualify name = name := by
  rw [qualify, if_pos (Text.startsWith_iff.mpr braced)]

theorem qualify_cases (name : String) : qualify name = name ∨ ['\x7b'] <+: (qualify name).toList := by
  unfold qualify
  repeat' split
  all_goals first | exact .inl rfl | exact .inr (expanded_braced _ _)

@[simp] theorem qualify_qualify (name : String) : qualify (qualify name) = qualify name := by
  rcases qualify_cases name with same | braced
  · rw [same, same]
  · exact qualify_of_braced braced

theorem qualify_of_label (plain : ∀ c ∈ name.toList, isNameChar c = true) : qualify name = name := by
  have unopened : ¬ Text.startsWith ['\x7b'] name.toList = true := by
    rw [Text.startsWith_iff]
    intro braced
    exact absurd (plain '\x7b' (braced.subset List.mem_cons_self)) (by decide)
  have whole : Text.cutAtChar? ':' name.toList = none :=
    Text.cutAtChar?_eq_none fun mem => absurd (plain ':' mem) (by decide)
  rw [qualify, if_neg unopened, whole]

/-- Names that are read are expanded, and close what they open. -/
theorem Expansion.qualify_eq {uri : Option String} (expansion : Expansion name uri label) : qualify name = name := by
  cases uri with
  | none =>
      obtain rfl : name = label := expansion.name_eq
      exact qualify_of_label expansion.label_chars
  | some uri =>
      obtain rfl : name = Xml.expanded uri label := expansion.name_eq
      exact qualify_of_braced (expanded_braced uri label)

theorem Expansion.closed {uri : Option String} (expansion : Expansion name uri label) : Closed name := by
  cases uri with
  | none =>
      obtain rfl : name = label := expansion.name_eq
      exact fun braced => absurd (expansion.label_chars _ (braced.subset List.mem_cons_self)) (by decide)
  | some uri =>
      obtain rfl : name = Xml.expanded uri label := expansion.name_eq
      exact closed_expanded uri label

/-- A known short form stands for its namespace. -/
theorem qualify_known (known : (space, uri) ∈ knownSpaces) (label : String) :
    qualify (space ++ ":" ++ label) = expanded uri label := by
  have found := (by decide : ∀ p ∈ knownSpaces, knownSpaces.lookup p.1 = some p.2) _ known
  have plain := (by decide : ∀ p ∈ knownSpaces, '\x7b' ∉ p.1.toList ∧ ':' ∉ p.1.toList) _ known
  have chars : (space ++ ":" ++ label).toList = space.toList ++ ':' :: label.toList := by
    simp
  have unopened : ¬ Text.startsWith ['\x7b'] (space.toList ++ ':' :: label.toList) = true := by
    rw [Text.startsWith_iff]
    rintro ⟨rest, opened⟩
    cases letters : space.toList with
    | nil => simp [letters] at opened
    | cons c more =>
        rw [letters] at opened
        exact plain.1 (by simp [letters, ← (List.cons.inj opened).1])
  rw [qualify, chars, if_neg unopened, Text.cutAtChar?_append plain.2]
  simp only [String.ofList_toList, found]

/-! ## Listing -/

/-- What a name is listed as. -/
def listed (name : String) : String :=
  (displayName name).toOption.getD name

/-- Whether a name is in a known namespace or in none. -/
def Familiar (name : String) : Prop :=
  ¬ ['\x7b'] <+: name.toList ∨ ∃ p ∈ knownSpaces, name = expanded p.2 (localName name)

instance : DecidablePred Familiar := fun name =>
  inferInstanceAs (Decidable (¬ ['\x7b'] <+: name.toList ∨ ∃ p ∈ knownSpaces, name = expanded p.2 (localName name)))

theorem Familiar.closed (familiar : Familiar name) : Closed name := by
  rcases familiar with unbraced | ⟨p, -, same⟩
  · exact fun braced => absurd braced unbraced
  · rw [same]
    exact closed_expanded _ _

theorem displayName_of_not_braced (unbraced : ¬ ['\x7b'] <+: name.toList) : displayName name = .ok name := by
  rw [displayName]
  split
  case h_1 rest opened =>
    rw [opened] at unbraced
    exact absurd (List.prefix_append ['\x7b'] rest) unbraced
  case h_2 => rfl

theorem displayName_expanded (closed : '\x7d' ∉ uri.toList) (label : String) :
    displayName (expanded uri label) = .ok (((knownSpaces.find? fun p => p.2 = uri).elim label
      fun p => p.1 ++ ":" ++ label)) := by
  rw [displayName, toList_expanded]
  simp only [Text.cutAtChar?_append closed, String.ofList_toList]
  split
  case h_1 found => simp [found]
  case h_2 found => simp [found]

/-- Names that close what they open are listed. -/
theorem Closed.displayName_eq (closed : Closed name) : displayName name = .ok (listed name) := by
  rcases closed.cases with unbraced | ⟨uri, label, inside, rfl⟩
  · rw [listed, displayName_of_not_braced unbraced]
    rfl
  · rw [listed, displayName_expanded inside]
    rfl

/-- A familiar name that is expanded is what its listed form is expanded to. -/
theorem Familiar.qualify_listed (familiar : Familiar name) (settled : qualify name = name) :
    qualify (listed name) = name := by
  rcases familiar with unbraced | ⟨⟨space, uri⟩, known, same⟩
  · rw [listed, displayName_of_not_braced unbraced, Except.toOption, Option.getD_some, settled]
  · have first := (by decide : ∀ p ∈ knownSpaces,
      '\x7d' ∉ p.2.toList ∧ knownSpaces.find? (fun q => q.2 = p.2) = some p) _ known
    rw [same, listed, displayName_expanded first.1, first.2]
    exact qualify_known known _

theorem listed_of_not_familiar (closed : Closed name) (strange : ¬ Familiar name) : listed name = localName name := by
  rcases closed.cases with unbraced | ⟨uri, label, inside, rfl⟩
  · exact absurd (.inl unbraced) strange
  · have unknown : knownSpaces.find? (fun p => p.2 = uri) = none := by
      rw [List.find?_eq_none]
      intro p mem
      rw [decide_eq_true_eq]
      rintro rfl
      exact strange (.inr ⟨p, mem, by rw [localName_expanded inside]⟩)
    rw [listed, displayName_expanded inside, unknown, localName_expanded inside]
    rfl

end SvgForm.Xml
