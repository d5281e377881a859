import SvgForm.Proofs.Form.Partition
import SvgForm.Proofs.Identity.Address
import SvgForm.Proofs.Render.Choice
/-! # The fields of rendered documents

Rendering changes neither ids nor where elements with an id stand, unless they are inside a written text. What it
does change is which elements are placeholders. The fields of a rendered document stand where those of the document
stood just if none of these elements has become a placeholder, and whatever is no placeholder any more is an option
of a group that begins earlier.
-/

namespace SvgForm

/-- What a form knows a field by: its id, its kind and the id of its element. -/
def Field.heading (f : Field) : String × Kind × Option String :=
  (f.id, f.kind, f.elementId)

/-! ## Fields that differ in what they hold -/

theorem Field.check_congr {f g : Field} (id : g.id = f.id) (max : g.maxLength = f.maxLength)
    (min : g.minLength = f.minLength) (hidden : g.hiddenWhen = f.hiddenWhen) (ok : f.check = .ok f) :
    g.check = .ok g := by
  have same : g.check = f.check.map fun _ => g := by
    unfold check
    rw [id, max, min, hidden]
    repeat' first | rfl | split
  rw [same, ok]
  rfl

/-- What a field takes hangs on the identifier alone. -/
theorem Candidate.field_congr {c c' : Candidate} (source : c'.source = c.source)
    (identifier : c'.identifier = c.identifier) (all all' : List Candidate) (id : String)
    (identity identity' : Option String) :
    (c'.field all' id identity').heading = (c.field all id identity).heading ∧
      (c'.field all' id identity').maxLength = (c.field all id identity).maxLength ∧
      (c'.field all' id identity').minLength = (c.field all id identity).minLength ∧
      (c'.field all' id identity').hiddenWhen = (c.field all id identity).hiddenWhen := by
  unfold field option?
  rw [identifier]
  cases c.identifier.selectValue with
  | some value => simp [selectField, Field.heading, source]
  | none =>
      simp only [Option.map_none, plainField, identifier]
      split <;> simp [Field.heading, source]

open UniqueKeys in
/-- The order in which keys are reserved does not matter, nor how often. -/
theorem UniqueKeys.claimAll_congr {reserved reserved' keys : List String}
    (same : ∀ key, key ∈ reserved' ↔ key ∈ reserved) (known : keys ⊆ reserved) :
    (claimAll { reserved := reserved' } keys).1 = (claimAll { reserved } keys).1 := by
  have known' : keys ⊆ reserved' := fun key mem => (same key).mpr (known mem)
  have numbers : Unreserved reserved' = Unreserved reserved := by
    funext key n
    simp only [Unreserved, same]
  have occurrences : occurrence reserved' = occurrence reserved := by
    funext key i
    cases i with
    | zero => rfl
    | succ i => simp only [occurrence, numbers]
  rw [claimAll_eq_mapIdx known', claimAll_eq_mapIdx known, occurrences]

theorem mapM_check {α : Type} {g : α → Field} {l : List α} {fs : List Field} :
    (l.mapM fun a => (g a).check) = .ok fs ↔ (∀ a ∈ l, (g a).check = .ok (g a)) ∧ fs = l.map g := by
  induction l generalizing fs with
  | nil => simp [pure, Except.pure, eq_comm]
  | cons a l ih =>
      simp only [List.mapM_cons, except_bind_ok, pure, Except.pure, Except.ok.injEq, List.forall_mem_cons,
        List.map_cons]
      constructor
      · rintro ⟨f, first, rest, later, rfl⟩
        obtain rfl := Field.check_ok first
        obtain ⟨each, rfl⟩ := ih.mp later
        exact ⟨⟨first, each⟩, rfl⟩
      · rintro ⟨⟨first, each⟩, rfl⟩
        exact ⟨g a, first, l.map g, ih.mpr ⟨each, rfl⟩, rfl⟩

namespace Document

variable {d d' : Document} {phrase : String} {h s x : Handle} {fs : List Field}

/-! ## Fields by where they stand -/

/-- The ids of fields hang on the elements at which the fields stand. -/
theorem fieldIds_eq (hd : d.WellFormed) (phrase : String) :
    d.fieldIds phrase = (UniqueKeys.claimAll { reserved := (d.starts phrase).map fun s => (d.identifierOf s).base }
      ((d.starts phrase).map fun s => (d.identifierOf s).base)).1 := by
  have keys : ((d.starts phrase).map d.candidate).map (·.identifier.base) =
      (d.starts phrase).map fun s => (d.identifierOf s).base := List.map_map
  have reserved : (d.candidates phrase).map (·.identifier.base) =
      (d.identified phrase).map fun h => (d.identifierOf h).base := by
    rw [candidates_eq, List.map_map]
    rfl
  rw [fieldIds, openers_eq hd, keys, reserved]
  refine UniqueKeys.claimAll_congr (fun key => ?_) (List.Subset.refl _)
  simp only [List.mem_map]
  constructor
  · rintro ⟨h, mem, rfl⟩
    obtain ⟨s, ⟨start, belongs⟩, -⟩ := existsUnique_start mem
    refine ⟨s, start, ?_⟩
    rcases belongs with rfl | ⟨-, member⟩
    · rfl
    · exact (mem_group_iff.mp member).2.2.symm
  · rintro ⟨s, start, rfl⟩
    exact ⟨s, (mem_starts_iff.mp start).1, rfl⟩

/-- The field that is made at an element. -/
def fieldMade (d : Document) (phrase : String) (p : Handle × String) : Field :=
  (d.candidate p.1).field (d.candidates phrase) p.2 ((d.identities identityAttribute).lookup p.1)

theorem fields_eq (hd : d.WellFormed) (phrase : String) : d.fields phrase =
    ((d.starts phrase).zip (d.fieldIds phrase)).mapM fun p => (d.fieldMade phrase p).check := by
  have made : d.fields phrase = ((Candidate.openers [] (d.candidates phrase)).zip (d.fieldIds phrase)).mapM
      fun p => (p.1.field (d.candidates phrase) p.2 ((d.identities identityAttribute).lookup p.1.handle)).check :=
    rfl
  rw [made, openers_eq hd, List.zip_map_left, List.mapM_map]
  rfl

/-- Where fields stand at the same elements, with the same ids in the markup, they are the same on the form. -/
theorem fields_of_starts (hd : d.WellFormed) (hd' : d'.WellFormed) (parsed : d.fields phrase = .ok fs)
    (starts : d'.starts phrase = d.starts phrase)
    (sources : ∀ s ∈ d.starts phrase, d'.sourceOf s = d.sourceOf s) :
    ∃ fs', d'.fields phrase = .ok fs' ∧ fs'.map Field.heading = fs.map Field.heading := by
  have identifiers : ∀ s ∈ d.starts phrase, d'.identifierOf s = d.identifierOf s := fun s start => by
    rw [identifierOf, identifierOf, sources s start]
  have bases : (d'.starts phrase).map (fun s => (d'.identifierOf s).base) =
      (d.starts phrase).map fun s => (d.identifierOf s).base := by
    rw [starts]
    exact List.map_congr_left fun s start => by rw [identifiers s start]
  have ids : d'.fieldIds phrase = d.fieldIds phrase := by
    rw [fieldIds_eq hd, fieldIds_eq hd', bases]
  have same : ∀ p ∈ (d.starts phrase).zip (d.fieldIds phrase),
      (d'.fieldMade phrase p).heading = (d.fieldMade phrase p).heading ∧
      (d'.fieldMade phrase p).maxLength = (d.fieldMade phrase p).maxLength ∧
      (d'.fieldMade phrase p).minLength = (d.fieldMade phrase p).minLength ∧
      (d'.fieldMade phrase p).hiddenWhen = (d.fieldMade phrase p).hiddenWhen := by
    intro p mem
    have start := (List.of_mem_zip mem).1
    exact Candidate.field_congr (sources p.1 start) (identifiers p.1 start) _ _ _ _ _
  rw [fields_eq hd] at parsed
  obtain ⟨each, rfl⟩ := mapM_check.mp parsed
  refine ⟨_, (fields_eq hd' phrase).trans (mapM_check.mpr ⟨fun p mem => ?_, rfl⟩), ?_⟩
  · rw [starts, ids] at mem
    obtain ⟨heading, max, min, hidden⟩ := same p mem
    exact Field.check_congr (congrArg Prod.fst heading) max min hidden (each p mem)
  · rw [starts, ids, List.map_map, List.map_map]
    exact List.map_congr_left fun p mem => (same p mem).1

/-! ## Where fields stand -/

/-- The elements that are identified unless they are placeholders. -/
def named (d : Document) : List Handle :=
  d.handles.filter fun h => h ≠ root ∧ d.isContent h ∧ trimmed (d.sourceOf h) ≠ ""

theorem identified_eq (d : Document) (phrase : String) :
    d.identified phrase = d.named.filter fun h => d.isPlaceholder h phrase = false := by
  rw [identified, named, List.filter_filter]
  refine List.filter_congr fun h _ => ?_
  rw [← Bool.decide_and]
  refine decide_eq_decide.mpr ⟨?_, ?_⟩
  · rintro ⟨other, content, shown, named⟩
    exact ⟨shown, other, content, named⟩
  · rintro ⟨shown, other, content, named⟩
    exact ⟨other, content, shown, named⟩

theorem mem_identified_iff : x ∈ d.identified phrase ↔ x ∈ d.named ∧ d.isPlaceholder x phrase = false := by
  simp [identified_eq]

theorem takeWhile_filter_of_mem {α : Type} [DecidableEq α] {p : α → Bool} {a : α} {l : List α} (mem : a ∈ l)
    (accepted : p a = true) : (l.filter p).takeWhile (· ≠ a) = (l.takeWhile (· ≠ a)).filter p := by
  induction l with
  | nil => cases mem
  | cons b l ih =>
      by_cases here : b = a
      · subst here
        simp [accepted]
      · have later : a ∈ l := List.mem_of_ne_of_mem (Ne.symm here) mem
        rw [List.takeWhile_cons_of_pos (by simpa using here)]
        cases accepts : p b with
        | true =>
            rw [List.filter_cons_of_pos accepts, List.filter_cons_of_pos accepts,
              List.takeWhile_cons_of_pos (by simpa using here), ih later]
        | false =>
            rw [List.filter_cons_of_neg (by simp [accepts]), List.filter_cons_of_neg (by simp [accepts]), ih later]

/-- The named elements that stand before one of them. -/
def namedBefore (d : Document) (x : Handle) : List Handle :=
  d.named.takeWhile (· ≠ x)

theorem mem_namedBefore_iff (hx : x ∈ d.named) : s ∈ d.namedBefore x ↔ s ∈ d.named ∧ s ∈ d.handlesBefore x := by
  obtain ⟨attached, named⟩ := List.mem_filter.mp hx
  rw [namedBefore, Document.named, takeWhile_filter_of_mem attached named, ← handlesBefore, List.mem_filter,
    List.mem_filter]
  constructor
  · rintro ⟨before, fits⟩
    exact ⟨⟨(mem_handles_of_mem_before before).1, fits⟩, before⟩
  · rintro ⟨⟨-, fits⟩, before⟩
    exact ⟨before, fits⟩

/-- Whether an element stands for a choice with the base of another. -/
def Alike (d : Document) (x y : Handle) : Prop :=
  d.IsOption y ∧ (d.identifierOf y).base = (d.identifierOf x).base

instance (d : Document) (x y : Handle) : Decidable (d.Alike x y) :=
  inferInstanceAs (Decidable (d.IsOption y ∧ (d.identifierOf y).base = (d.identifierOf x).base))

/-- A field stands at an identified element unless it is an option and one like it stands before it. -/
theorem mem_starts_iff_before : s ∈ d.starts phrase ↔ s ∈ d.identified phrase ∧
    (d.IsOption s → ∀ y ∈ d.namedBefore s, d.isPlaceholder y phrase = false → ¬ d.Alike s y) := by
  rw [mem_starts_iff]
  refine and_congr_right fun mem => ?_
  obtain ⟨named, shown⟩ := mem_identified_iff.mp mem
  rw [← imp_iff_not_or]
  refine imp_congr_right fun option => ?_
  rw [group, optionsLike, List.head?_filter, identified_eq, List.find?_filter,
    find?_eq_some_iff_takeWhile named (by simp [shown, option]), ← namedBefore]
  refine forall_congr' fun y => imp_congr_right fun _ => ?_
  simp only [Alike, decide_eq_false_iff_not, decide_eq_true_eq, not_and]

section

variable {α : Type} [DecidableEq α] {a b c : α} {l : List α}

theorem takeWhile_total (ha : a ∈ l) (hb : b ∈ l) (other : a ≠ b) :
    a ∈ l.takeWhile (· ≠ b) ∨ b ∈ l.takeWhile (· ≠ a) := by
  induction l with
  | nil => cases ha
  | cons e l ih =>
      by_cases first : e = a
      · subst first
        exact .inl (by simp [List.takeWhile_cons_of_pos, other])
      · by_cases second : e = b
        · subst second
          exact .inr (by simp [List.takeWhile_cons_of_pos, first])
        · have laterA := List.mem_of_ne_of_mem (Ne.symm first) ha
          have laterB := List.mem_of_ne_of_mem (Ne.symm second) hb
          rw [List.takeWhile_cons_of_pos (by simpa using second), List.takeWhile_cons_of_pos (by simpa using first)]
          exact (ih laterA laterB).imp (List.mem_cons_of_mem e) (List.mem_cons_of_mem e)

theorem takeWhile_trans (first : a ∈ l.takeWhile (· ≠ b)) (second : b ∈ l.takeWhile (· ≠ c)) :
    a ∈ l.takeWhile (· ≠ c) := by
  induction l with
  | nil => cases first
  | cons e l ih =>
      by_cases last : e = c
      · simp [last] at second
      · by_cases middle : e = b
        · simp [middle] at first
        · rw [List.takeWhile_cons_of_pos (by simpa using middle), List.mem_cons] at first
          rw [List.takeWhile_cons_of_pos (by simpa using last), List.mem_cons] at second ⊢
          exact first.imp id fun later => ih later (second.resolve_left (Ne.symm middle))

end

theorem mem_named_of_before (before : s ∈ d.namedBefore x) : s ∈ d.named :=
  (List.takeWhile_prefix _).subset before

theorem starts_eq_filter_named (d : Document) (phrase : String) :
    d.starts phrase = d.named.filter fun h => h ∈ d.starts phrase := by
  conv_lhs => rw [starts, identified_eq, List.filter_filter]
  refine List.filter_congr fun h hh => ?_
  rw [← Bool.decide_and]
  refine decide_eq_decide.mpr ?_
  rw [mem_starts_iff, mem_identified_iff, and_comm, and_iff_right hh]

/-- Before an identified option that is no start there is a start like it. -/
theorem exists_start_before (mem : x ∈ d.identified phrase) (inside : x ∉ d.starts phrase) :
    d.IsOption x ∧ ∃ s ∈ d.starts phrase, s ∈ d.namedBefore x ∧ d.Alike x s := by
  obtain ⟨s, ⟨start, belongs⟩, -⟩ := existsUnique_start mem
  have other : s ≠ x := by
    rintro rfl
    exact inside start
  obtain ⟨option, member⟩ := belongs.resolve_left other
  obtain ⟨-, chooses, base⟩ := mem_group_iff.mp member
  obtain ⟨identified, first⟩ := mem_starts_iff_before.mp start
  obtain ⟨named, shown⟩ := mem_identified_iff.mp mem
  refine ⟨chooses, s, start, ?_, option, base.symm⟩
  rcases takeWhile_total (mem_identified_iff.mp identified).1 named other with before | before
  · exact before
  · exact absurd ⟨chooses, base⟩ (first option x before shown)

/-- An element would be one more option of a group, because the field of the group stands before it. -/
def JoinsGroup (d : Document) (phrase : String) (x : Handle) : Prop :=
  d.IsOption x ∧ ∃ s ∈ d.starts phrase, s ∈ d.handlesBefore x ∧ d.Alike x s

theorem isOption_congr (same : d'.sourceOf x = d.sourceOf x) : d'.IsOption x ↔ d.IsOption x := by
  rw [IsOption, IsOption, identifierOf, identifierOf, same]

theorem alike_congr {y : Handle} (same : d'.sourceOf x = d.sourceOf x) (same' : d'.sourceOf y = d.sourceOf y) :
    d'.Alike x y ↔ d.Alike x y := by
  rw [Alike, Alike, isOption_congr same', identifierOf, identifierOf, identifierOf, identifierOf, same, same']

/-- Where the named elements are the same, fields stand at the same elements just if none of these has become a
placeholder and whatever is none any more joins a group. -/
theorem starts_eq_iff (named : d'.named = d.named) (sources : ∀ x ∈ d.named, d'.sourceOf x = d.sourceOf x) :
    d'.starts phrase = d.starts phrase ↔ (∀ s ∈ d.starts phrase, d'.isPlaceholder s phrase = false) ∧
      ∀ x ∈ d.named, d.isPlaceholder x phrase = true → d'.isPlaceholder x phrase = false →
        d.JoinsGroup phrase x := by
  have before : ∀ x, d'.namedBefore x = d.namedBefore x := fun x => by rw [namedBefore, namedBefore, named]
  constructor
  · intro same
    constructor
    · intro s start
      exact (mem_identified_iff.mp (mem_starts_iff.mp (same ▸ start)).1).2
    · intro x hx hidden shown
      have identified : x ∈ d'.identified phrase := mem_identified_iff.mpr ⟨named ▸ hx, shown⟩
      have inside : x ∉ d'.starts phrase := fun start => by
        rw [same] at start
        rw [(mem_identified_iff.mp (mem_starts_iff.mp start).1).2] at hidden
        cases hidden
      obtain ⟨chooses, s, start, earlier, like⟩ := exists_start_before identified inside
      rw [before] at earlier
      have hs := mem_named_of_before earlier
      exact ⟨(isOption_congr (sources x hx)).mp chooses, s, same ▸ start,
        ((mem_namedBefore_iff hx).mp earlier).2, (alike_congr (sources x hx) (sources s hs)).mp like⟩
  · rintro ⟨stay, join⟩
    have joins : ∀ x ∈ d.named, d.isPlaceholder x phrase = true → d'.isPlaceholder x phrase = false →
        d.IsOption x ∧ ∃ s ∈ d.starts phrase, s ∈ d.namedBefore x ∧ d.Alike x s := by
      intro x hx hidden shown
      obtain ⟨chooses, s, start, earlier, like⟩ := join x hx hidden shown
      have hs := (mem_identified_iff.mp (mem_starts_iff.mp start).1).1
      exact ⟨chooses, s, start, (mem_namedBefore_iff hx).mpr ⟨hs, earlier⟩, like⟩
    have still : ∀ s ∈ d.starts phrase, s ∈ d'.identified phrase := fun s start =>
      mem_identified_iff.mpr ⟨named ▸ (mem_identified_iff.mp (mem_starts_iff.mp start).1).1, stay s start⟩
    -- Whether an element is a start is a matter of what stands before it, in both documents.
    have mem_iff : ∀ x ∈ d.named, x ∈ d'.starts phrase ↔ x ∈ d.starts phrase := by
      intro x hx
      rw [mem_starts_iff_before (d := d'), before, isOption_congr (sources x hx)]
      have alike : ∀ y ∈ d.namedBefore x, d'.Alike x y ↔ d.Alike x y := fun y earlier =>
        alike_congr (sources x hx) (sources y (mem_named_of_before earlier))
      constructor
      · rintro ⟨identified, first⟩
        have alone : ¬ (d.IsOption x ∧ ∃ s ∈ d.starts phrase, s ∈ d.namedBefore x ∧ d.Alike x s) := by
          rintro ⟨chooses, s, start, earlier, like⟩
          exact first chooses s earlier (stay s start) ((alike s earlier).mpr like)
        cases hidden : d.isPlaceholder x phrase with
        | true => exact absurd (joins x hx hidden (mem_identified_iff.mp identified).2) alone
        | false =>
            by_contra inside
            exact alone (exists_start_before (mem_identified_iff.mpr ⟨hx, hidden⟩) inside)
      · intro start
        refine ⟨still x start, fun chooses y earlier shown like => ?_⟩
        rw [alike y earlier] at like
        obtain ⟨-, first⟩ := mem_starts_iff_before.mp start
        cases hidden : d.isPlaceholder y phrase with
        | false => exact first chooses y earlier hidden like
        | true =>
            -- What joins a group has the start of the group before it, and so has what stands after it.
            obtain ⟨-, s, other, sooner, likewise⟩ := joins y (mem_named_of_before earlier) hidden shown
            exact first chooses s (takeWhile_trans sooner earlier)
              (mem_identified_iff.mp (mem_starts_iff.mp other).1).2 ⟨likewise.1, likewise.2.trans like.2⟩
    rw [starts_eq_filter_named d', starts_eq_filter_named d, named]
    exact List.filter_congr fun x hx => decide_eq_decide.mpr (mem_iff x hx)

instance (d : Document) (phrase : String) : DecidablePred (d.JoinsGroup phrase) := fun x =>
  inferInstanceAs (Decidable (d.IsOption x ∧ ∃ s ∈ d.starts phrase, s ∈ d.handlesBefore x ∧ d.Alike x s))

/-! ## Rendered documents -/

/-- An element that is not inside one with a text has the ancestors it had. -/
theorem Frame.ancestors_eq {written texts : Handle → Prop} (frame : Frame written texts d d') (hd : d.WellFormed)
    (hx : x ∈ d.handles) (outside : ∀ y, texts y → ¬ d.outline.Below y x) : d'.ancestors x = d.ancestors x := by
  have above := climbs_ancestors hd x
  refine above.eq (climbs_ancestors frame.wellFormed x) fun y mem => ?_
  have hy : y ∈ d.handles := by
    rcases List.mem_cons.mp mem with rfl | higher
    · exact hx
    · exact ancestors_subset hd higher
  rw [Document.parent?_eq hd, Document.parent?_eq frame.wellFormed]
  refine frame.parent?_eq hd hy fun z text below => outside z text ?_
  rcases List.mem_cons.mp mem with rfl | higher
  · exact below
  · exact below.trans hd.handles_nodup (hd.mem_ancestors_iff.mp higher)

/-- Where texts are written into elements that contain no named ones, the named elements are the same. -/
theorem Frame.named_eq {written texts : Handle → Prop} (frame : Frame written texts d d') (hd : d.WellFormed)
    (bare : ∀ y, texts y → ∀ x, d.outline.Below y x → trimmed (d.sourceOf x) = "") : d'.named = d.named := by
  have sources : ∀ x, d'.sourceOf x = d.sourceOf x := fun x => by rw [sourceOf, sourceOf, frame.get?_id]
  have blank : trimmed "" = "" := by decide
  have old : ∀ x, trimmed (d'.sourceOf x) ≠ "" → x < d.elements.size := by
    intro x some
    by_contra new
    rw [sourceOf, frame.nameless x (Nat.le_of_not_lt new)] at some
    exact some blank
  have outside : ∀ x, trimmed (d.sourceOf x) ≠ "" → ∀ y, texts y → ¬ d.outline.Below y x :=
    fun x some y text below => some (bare y text x below)
  have content : ∀ x ∈ d.handles, trimmed (d.sourceOf x) ≠ "" → d'.isContent x = d.isContent x := by
    intro x hx some
    have tags : ∀ y ∈ d.handles, d'.tag y = d.tag y := fun y hy => by
      have names : (d'.element y).steady.name = (d.element y).steady.name := by
        rw [frame.steady y (hd.lt_size hy)]
      exact congrArg Xml.localName names
    exact isContent_congr (tags x hx) (frame.ancestors_eq hd hx (outside x some))
      fun y above => tags y (ancestors_subset hd above)
  have same : d.named = d.handles.filter fun x => x ≠ root ∧ d'.isContent x ∧ trimmed (d'.sourceOf x) ≠ "" := by
    refine List.filter_congr fun x hx => decide_eq_decide.mpr ?_
    rw [sources]
    refine and_congr_right fun _ => and_congr_left fun some => ?_
    rw [content x hx some]
  have among : d'.named.Sublist d.named := by
    have within : d'.named = (d'.handles.filter (· < d.elements.size)).filter
        fun x => x ≠ root ∧ d'.isContent x ∧ trimmed (d'.sourceOf x) ≠ "" := by
      rw [named, List.filter_filter]
      refine List.filter_congr fun x _ => ?_
      rw [← Bool.decide_and]
      exact decide_eq_decide.mpr ⟨fun fits => ⟨fits, old x fits.2.2⟩, And.left⟩
    rw [within, same]
    exact frame.order.filter _
  have all : d.named ⊆ d'.named := by
    intro x hx
    rw [same] at hx
    obtain ⟨attached, fits⟩ := List.mem_filter.mp hx
    refine List.mem_filter.mpr ⟨frame.keeps x attached (outside x ?_), fits⟩
    rw [← sources]
    exact (of_decide_eq_true fits).2.2
  have distinct : d.named.Nodup := hd.handles_nodup.filter _
  exact among.eq_of_length_le (distinct.subperm all).length_le

/-- A copy has the same named elements. -/
theorem named_copy (hd : d.WellFormed) : d.copy.named = d.named := by
  refine List.filter_congr fun x hx => decide_eq_decide.mpr ?_
  have sim := simulates_copy hd
  rw [sim.isContent (.inl hx), sourceOf, sourceOf, sim.get? (.inl hx)]

theorem sourceOf_copy (hd : d.WellFormed) (hx : x ∈ d.handles) : d.copy.sourceOf x = d.sourceOf x := by
  rw [sourceOf, sourceOf, (simulates_copy hd).get? (.inl hx)]

variable {ε : Type} {m : FontGauge ε} {filling : Filling} {draws : Draws} {out : Document}

/-- Rendering writes texts into the elements of textual fields only. -/
theorem renderedTexts_subset (hd : d.WellFormed) (parsed : d.fields placeholderPhrase = .ok fs)
    (filling : Filling) (m : FontGauge ε) (draws : Draws) :
    d.renderedTexts fs filling m identityAttribute draws ⊆ d.textHandles fs := by
  intro x mem
  obtain ⟨t, turn, located⟩ := List.mem_filterMap.mp mem
  obtain ⟨turn, textual⟩ := List.mem_filter.mp turn
  obtain ⟨⟨v, resolved⟩, -⟩ := mem_turns hd.copy (fun _ => hd.copy.lt_size_of_mem_identities) turn
  have listed := List.mem_map_of_mem (f := Prod.fst) resolved
  rw [Field.map_fst_resolveAll] at listed
  have among : t.1 ∈ fs := (List.mem_filter.mp listed).1
  obtain ⟨s, stands⟩ := exists_start_of_mem hd parsed among
  have placed := placed_of_mem hd parsed stands
  obtain rfl := Option.some.inj ((placed.located t.2).symm.trans located)
  exact placed.inside textual

/-- Where no textual field's element contains named ones, the named elements of a rendered document are those
of the document, with the same ids. -/
theorem named_render (hd : d.WellFormed) (parsed : d.fields placeholderPhrase = .ok fs)
    (returned : d.render fs filling m identityAttribute draws = .ok out)
    (bare : ∀ y ∈ d.textHandles fs, ∀ x ∈ d.handles, y ∈ d.ancestors x → trimmed (d.sourceOf x) = "") :
    out.WellFormed ∧ out.named = d.named ∧ ∀ x ∈ d.named, out.sourceOf x = d.sourceOf x := by
  have frame := frame_render hd returned
  have apart : ∀ y ∈ d.renderedTexts fs filling m identityAttribute draws, ∀ x, d.copy.outline.Below y x →
      trimmed (d.copy.sourceOf x) = "" := by
    intro y text x below
    have hx : x ∈ d.handles := below.mem_right
    rw [sourceOf_copy hd hx]
    exact bare y (renderedTexts_subset hd parsed filling m draws text) x hx (hd.mem_ancestors_iff.mpr below)
  refine ⟨frame.wellFormed, (frame.named_eq hd.copy apart).trans (named_copy hd), fun x hx => ?_⟩
  rw [← sourceOf_copy hd (List.mem_filter.mp hx).1, sourceOf, sourceOf, frame.get?_id]

/-- Where no textual field's element contains others with an id, a rendered document has the fields of the
document, at the same elements, just if none of these has become a placeholder and every other identified element
that is none any more is one more option of a field before it. -/
theorem render_fields_iff (hd : d.Reachable) (parsed : d.fields placeholderPhrase = .ok fs)
    (returned : d.render fs filling m identityAttribute draws = .ok out)
    (bare : ∀ y ∈ d.textHandles fs, ∀ x ∈ d.handles, y ∈ d.ancestors x → trimmed (d.sourceOf x) = "") :
    ((∃ fs', out.fields placeholderPhrase = .ok fs' ∧ fs'.map Field.heading = fs.map Field.heading) ∧
        out.starts placeholderPhrase = d.starts placeholderPhrase) ↔
      (∀ s ∈ d.starts placeholderPhrase, out.isPlaceholder s placeholderPhrase = false) ∧
        ∀ x ∈ d.named, d.isPlaceholder x placeholderPhrase = true → out.isPlaceholder x placeholderPhrase = false →
          d.JoinsGroup placeholderPhrase x := by
  have hwf := hd.wellFormed
  obtain ⟨hout, named, sources⟩ := named_render hwf parsed returned bare
  rw [← starts_eq_iff named sources]
  refine and_iff_right_of_imp fun starts => fields_of_starts hwf hout parsed starts fun s start => ?_
  exact sources s (mem_identified_iff.mp (mem_starts_iff.mp start).1).1

/-- A choice whose second option is a placeholder, because of two texts in it. -/
def halves : Document :=
  ofTree (.node { name := "svg" } (.node { name := "text", attributes := [("id", "size.select_s")], text := "Small" } .nil
    (.node { name := "g", attributes := [("id", "size.select_l")] } (.ofRoots [
      { name := "text", attributes := [("id", "kind.text")], text := "Test " },
      { name := "text", attributes := [("id", "paper.text")], text := "document" }]) .nil)) .nil)

def halfFilled : Filling := { values := [("kind", .text "Large ")] }

/-- With another text in it the option is none any more, and is one more in the choice. -/
theorem halves_fields : ∃ fs out fs', halves.fields placeholderPhrase = .ok fs ∧
    halves.render fs halfFilled FontMetrics.noFiles.gauge identityAttribute (.cycling []) = .ok out ∧
    halves.isPlaceholder 2 placeholderPhrase = true ∧ out.isPlaceholder 2 placeholderPhrase = false ∧
    out.fields placeholderPhrase = .ok fs' ∧ fs'.map Field.heading = fs.map Field.heading ∧
    out.starts placeholderPhrase = [1, 3, 4] := by
  have reachable : halves.Reachable := .tree _ (by decide)
  have rendered : (halves.fields placeholderPhrase).toOption.bind (fun fs =>
      (halves.render fs halfFilled FontMetrics.noFiles.gauge identityAttribute (.cycling [])).toOption.map fun out =>
        (halves.textHandles fs, [1, 2, 3, 4].map (out.isPlaceholder · placeholderPhrase))) =
      some ([3, 4], [false, false, false, false]) := by decide +kernel
  obtain ⟨fs, parsed, rendered⟩ := Option.bind_eq_some_iff.mp rendered
  obtain ⟨out, done, rendered⟩ := Option.map_eq_some_iff.mp rendered
  obtain ⟨texts, shown⟩ := Prod.mk.inj rendered
  simp only [List.map_cons, List.map_nil, List.cons.injEq, and_true] at shown
  have bare : ∀ y ∈ halves.textHandles fs, ∀ x ∈ halves.handles, y ∈ halves.ancestors x →
      trimmed (halves.sourceOf x) = "" := by
    rw [texts]
    decide
  have starts : halves.starts placeholderPhrase = [1, 3, 4] := by decide +kernel
  have stay : ∀ s ∈ halves.starts placeholderPhrase, out.isPlaceholder s placeholderPhrase = false := by
    rw [starts]
    simp [shown]
  have joins : ∀ x ∈ halves.named, halves.isPlaceholder x placeholderPhrase = true →
      halves.JoinsGroup placeholderPhrase x := by decide +kernel
  obtain ⟨⟨fs', again, same⟩, kept⟩ := (render_fields_iff reachable (ok_of_toOption parsed) (ok_of_toOption done)
    bare).mpr ⟨stay, fun x hx hidden _ => joins x hx hidden⟩
  exact ⟨fs, out, fs', ok_of_toOption parsed, ok_of_toOption done, by decide +kernel, shown.2.1, again, same,
    kept.trans starts⟩

/-- A single text. -/
def greeting : Document :=
  ofTree (.node { name := "svg" } (.ofRoots [
    { name := "text", attributes := [("id", "greeting.text")], text := "Hello" }]) .nil)

/-- A field is lost where the phrase of placeholders is written into it. -/
theorem placeholder_loses_field : ¬ ∀ (d : Document) (fs : List Field) (values : KnownValues) (m : FontMetrics)
    (draws : Draws) (out : Document), d.Reachable → d.fields placeholderPhrase = .ok fs →
      d.render fs { values } m.gauge identityAttribute draws = .ok out →
      (∀ y ∈ d.textHandles fs, ∀ x ∈ d.handles, y ∈ d.ancestors x → d.get? x "id" = none) →
      ∃ fs', out.fields placeholderPhrase = .ok fs' ∧ fs'.map Field.heading = fs.map Field.heading := by
  intro keeps
  have rendered : (greeting.fields placeholderPhrase).toOption.bind (fun fs =>
      (greeting.render fs { values := [("greeting", .text "Test document")] } FontMetrics.noFiles.gauge identityAttribute
        (.cycling [])).toOption.map fun out =>
          (greeting.textHandles fs, fs.length, (out.fields placeholderPhrase).toOption.map List.length)) =
      some ([1], 1, some 0) := by decide +kernel
  obtain ⟨fs, parsed, rendered⟩ := Option.bind_eq_some_iff.mp rendered
  obtain ⟨out, done, rendered⟩ := Option.map_eq_some_iff.mp rendered
  simp only [Prod.mk.injEq] at rendered
  obtain ⟨texts, one, none⟩ := rendered
  have bare : ∀ y ∈ greeting.textHandles fs, ∀ x ∈ greeting.handles, y ∈ greeting.ancestors x →
      greeting.get? x "id" = .none := by
    rw [texts]
    decide
  obtain ⟨fs', again, same⟩ := keeps greeting fs _ .noFiles (.cycling []) out (.tree _ (by decide))
    (ok_of_toOption parsed) (ok_of_toOption done) bare
  rw [again, Except.toOption, Option.map_some, Option.some.injEq] at none
  have lengths := congrArg List.length same
  rw [List.length_map, List.length_map, none, one] at lengths
  cases lengths

end Document

end SvgForm
