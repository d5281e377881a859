import Mathlib.Data.List.Forall2
import Mathlib.Data.List.Induction
import Mathlib.Data.List.Nodup
import Mathlib.Logic.Relation
import SvgForm.Proofs.Lookup
import SvgForm.Render.Resolve
/-! # Where values come from

A field that depends on another takes its value from what is known of that one when its own turn comes: what
the other one got if it was resolved by then, and otherwise what it was given. So a change of given values
goes no further than to the fields affected by it. Where only those are resolved, each gets what it gets where
all fields are, unless it depends, be it through others, on one that itself depends on a field and is passed
over.
-/

namespace SvgForm

/-! ## References -/

namespace Reference

variable {ids : List String} {known : KnownValues}

/-- The id under which the value of a reference is looked up: its name, if that is one of the ids, and
otherwise what stands before the first bracket. -/
def source (ids : List String) (reference : String) : String :=
  let name := String.ofList (parse reference.toList).name
  if name ∈ ids then name else .ofList (baseName reference.toList)

/-- What a field that depends on a reference takes of a value. -/
def partOf (reference : String) (value : Value) : String :=
  if value.isImageReference then value.display
  else .ofList (extract (parse reference.toList).part value.display.toList)

theorem resolveDependency_eq (keys : ∀ id, (known.lookup id).isSome ↔ id ∈ ids) (reference : String) :
    resolveDependency known reference =
      partOf reference ((known.lookup (source ids reference)).getD .null) := by
  have named := keys (String.ofList (parse reference.toList).name)
  rw [source]
  cases found : known.lookup (String.ofList (parse reference.toList).name) with
  | none =>
      have absent : String.ofList (parse reference.toList).name ∉ ids := by simpa [found] using named
      simp only [resolveDependency, found, absent, if_false]
      rfl
  | some value =>
      have listed : String.ofList (parse reference.toList).name ∈ ids := by simpa [found] using named
      simp only [resolveDependency, found, listed, if_true, Option.getD_some]
      rfl

theorem cutPart?_spec {named : Bool} {text name : List Char} {part : Part × List Char}
    (cut : cutPart? named text = some (name, part)) : ∃ rest, text = name ++ '[' :: rest := by
  induction text generalizing named name with
  | nil => simp [cutPart?] at cut
  | cons c text ih =>
      rw [cutPart?] at cut
      split at cut
      case h_1 found =>
        obtain ⟨rfl, rfl⟩ := Prod.mk.inj (Option.some.inj cut)
        split at found
        case isTrue bracket => exact ⟨text, by rw [bracket.2, List.nil_append]⟩
        case isFalse => simp at found
      case h_2 =>
        split at cut
        case isTrue => simp at cut
        case isFalse =>
          obtain ⟨⟨before, found⟩, later, same⟩ := Option.map_eq_some_iff.mp cut
          obtain ⟨rfl, rfl⟩ := Prod.mk.inj same
          obtain ⟨rest, rfl⟩ := ih later
          exact ⟨rest, rfl⟩

theorem beforeChar_of_not_mem {mark : Char} {text : List Char} (absent : mark ∉ text) (rest : List Char) :
    Text.beforeChar mark (text ++ rest) = text ++ Text.beforeChar mark rest := by
  refine List.takeWhile_append_of_pos fun c mem => ?_
  simpa using ne_of_mem_of_not_mem mem absent

/-- A name without brackets is all that stands before the first one. -/
theorem baseName_eq_name {text : List Char} (plain : '[' ∉ (parse text).name) :
    baseName text = (parse text).name := by
  rw [parse] at plain ⊢
  split at plain
  case h_1 name part cut =>
    obtain ⟨rest, rfl⟩ := cutPart?_spec cut
    rw [baseName, beforeChar_of_not_mem plain, Text.beforeChar, List.takeWhile_cons_of_neg (by simp),
      List.append_nil]
  case h_2 =>
    simpa [baseName, Text.beforeChar] using beforeChar_of_not_mem plain []

/-- Where no id has a bracket, the name of a reference is what stands before the first one. -/
theorem source_eq (plain : ∀ id ∈ ids, '[' ∉ id.toList) (reference : String) :
    source ids reference = .ofList (baseName reference.toList) := by
  rw [source]
  split
  case isTrue listed =>
    have name := plain _ listed
    rw [String.toList_ofList] at name
    rw [baseName_eq_name name]
  case isFalse => rfl

end Reference

namespace Field

variable {f s : Field} {fs rest : List Field} {values values' known known' : KnownValues}
  {ids : List String} {target : Field → Bool}

/-! ## Resolving without rules -/

/-- The value of a field that no rule makes. -/
def plainValue (f : Field) (values known : KnownValues) : Value :=
  match f.dependency? with
  | some reference => .text (Reference.resolveDependency known reference)
  | none => f.given values

theorem resolve_eq (plain : f.isGenerated = false) (values known : KnownValues) (draws : Draws) :
    f.resolve values known draws = (f.plainValue values known, draws) := by
  have inactive (v : Value) : f.activeRule? v = none := by
    rw [activeRule?, Option.filter_eq_none_iff]
    intro rule found active
    simp only [isGenerated, found, Option.any_some, decide_eq_false_iff_not, not_not] at plain
    simp [plain] at active
  rw [resolve, plainValue]
  cases f.dependency? with
  | some reference => rfl
  | none => simp only [inactive]

/-- Two fields that depend on the same get the same where the same is known of what they depend on. -/
theorem plainValue_congr (keys : ∀ id, (known.lookup id).isSome ↔ id ∈ ids)
    (keys' : ∀ id, (known'.lookup id).isSome ↔ id ∈ ids)
    (given : f.dependency? = none → f.given values = f.given values')
    (looked : ∀ reference, f.dependency? = some reference →
      known.lookup (Reference.source ids reference) = known'.lookup (Reference.source ids reference)) :
    f.plainValue values known = f.plainValue values' known' := by
  rw [plainValue, plainValue]
  cases depends : f.dependency? with
  | some reference =>
      simp only [Reference.resolveDependency_eq keys, Reference.resolveDependency_eq keys',
        looked reference depends]
  | none => exact given depends

/-- The ids under which values are known are those of the fields. -/
def Keyed (fs : List Field) (known : KnownValues) : Prop :=
  ∀ id, (known.lookup id).isSome ↔ id ∈ fs.map (·.id)

theorem Keyed.cons (keyed : Keyed fs known) (mem : f ∈ fs) (v : Value) :
    Keyed fs ((f.id, v) :: known) := by
  intro id
  rw [lookup_cons_eq]
  split
  case isTrue same => simpa [same] using ⟨f, mem, rfl⟩
  case isFalse => exact keyed id

theorem initialValues_concat (values : KnownValues) (fs : List Field) (f : Field) :
    initialValues values (fs ++ [f]) = (f.id, f.exposed (f.given values)) :: initialValues values fs := by
  simp [initialValues]

theorem keyed_initialValues (values : KnownValues) (fs : List Field) :
    Keyed fs (initialValues values fs) := by
  intro id
  induction fs using List.reverseRecOn with
  | nil => simp [initialValues]
  | append_singleton fs f ih =>
      rw [initialValues_concat, lookup_cons_eq]
      split
      case isTrue same => simp [same]
      case isFalse other => simp [ih, other]

/-- Nothing but what a field was given is known of it at first. -/
theorem lookup_initialValues (distinct : (fs.map (·.id)).Nodup) (mem : f ∈ fs) :
    (initialValues values fs).lookup f.id = some (f.exposed (f.given values)) := by
  induction fs using List.reverseRecOn with
  | nil => simp at mem
  | append_singleton fs g ih =>
      rw [List.map_append, List.map_singleton, List.nodup_append'] at distinct
      rw [initialValues_concat, lookup_cons_eq]
      rcases List.mem_append.mp mem with before | last
      · have other : f.id ≠ g.id := fun same =>
          distinct.2.2 (List.mem_map_of_mem before) (by simp [same])
        rw [if_neg other, ih distinct.1 before]
      · rw [List.mem_singleton] at last
        rw [last, if_pos rfl]

/-! ## Resolving fields one by one -/

theorem resolveFrom_cons_of_target (hit : target f = true) (plain : f.isGenerated = false)
    (values known : KnownValues) (draws : Draws) :
    resolveFrom target values (f :: rest) known draws = (f, f.plainValue values known) ::
      resolveFrom target values rest ((f.id, f.exposed (f.plainValue values known)) :: known) draws := by
  rw [resolveFrom, if_pos hit, resolve_eq plain]

theorem resolveFrom_cons (plain : f.isGenerated = false) (values known : KnownValues) (draws : Draws) :
    resolveFrom (fun _ => true) values (f :: rest) known draws = (f, f.plainValue values known) ::
      resolveFrom (fun _ => true) values rest ((f.id, f.exposed (f.plainValue values known)) :: known)
        draws :=
  resolveFrom_cons_of_target rfl plain values known draws

theorem resolveFrom_cons_of_passed (passed : target f = false) (values known : KnownValues)
    (draws : Draws) : resolveFrom target values (f :: rest) known draws =
      resolveFrom target values rest known draws := by
  rw [resolveFrom, if_neg (by simp [passed])]

theorem map_fst_resolveFrom (target : Field → Bool) (values : KnownValues) (fs : List Field)
    (known : KnownValues) (draws : Draws) :
    (resolveFrom target values fs known draws).map Prod.fst = fs.filter target := by
  induction fs generalizing known draws with
  | nil => rfl
  | cons f fs ih =>
      rw [resolveFrom]
      split
      case isTrue hit => rw [List.map_cons, ih, List.filter_cons_of_pos hit]
      case isFalse passed => rw [ih, List.filter_cons_of_neg passed]

/-- The fields that changes affect are resolved; where no changes are named, all of them. -/
theorem map_fst_resolveAll (fs : List Field) (values : KnownValues) (changed : Option (List String))
    (draws : Draws) : (resolveAll fs values changed draws).map Prod.fst = fs.filter (isTarget fs changed) :=
  map_fst_resolveFrom ..

theorem resolveAll_fst (fs : List Field) (values : KnownValues) (draws : Draws) :
    (resolveAll fs values none draws).map Prod.fst = fs :=
  (map_fst_resolveAll fs values none draws).trans (List.filter_true fs)

/-! ## What a change of given values reaches -/

theorem affected_cons (changed : List String) (f : Field) (rest : List Field) :
    affected changed (f :: rest) = affected changed rest ∧
        (∀ reference, f.dependency? = some reference →
          String.ofList (Reference.baseName reference.toList) ∉ changed) ∨
      affected changed (f :: rest) = affected (f.id :: changed) rest := by
  rw [affected]
  cases f.dependency? with
  | none => exact .inl ⟨rfl, nofun⟩
  | some reference =>
      by_cases reached : String.ofList (Reference.baseName reference.toList) ∈ changed
      · exact .inr (if_pos reached)
      · refine .inl ⟨if_neg reached, ?_⟩
        rintro _ ⟨⟩
        exact reached

theorem subset_affected (changed : List String) (fs : List Field) : changed ⊆ affected changed fs := by
  induction fs generalizing changed with
  | nil => exact fun _ mem => mem
  | cons f rest ih =>
      rcases affected_cons changed f rest with ⟨same, -⟩ | more
      · rw [same]
        exact ih changed
      · rw [more]
        exact fun id mem => ih _ (List.mem_cons_of_mem f.id mem)

/-- While fields are resolved in two ways, the same is known of all that are not affected so far, and so those
that are not affected in the end get the same. -/
theorem resolveFrom_unaffected {all : List Field} {changed : List String} (within : fs ⊆ all)
    (bracketless : ∀ f ∈ all, '[' ∉ f.id.toList) (plain : ∀ f ∈ all, f.isGenerated = false)
    (given : ∀ f ∈ fs, f.id ∉ changed → f.given values = f.given values')
    (keyed : Keyed all known) (keyed' : Keyed all known')
    (agree : ∀ id, id ∉ changed → known.lookup id = known'.lookup id) (draws draws' : Draws) :
    List.Forall₂ (fun r r' => r.1 = r'.1 ∧ (r.1.id ∉ affected changed fs → r.2 = r'.2))
      (resolveFrom (fun _ => true) values fs known draws)
      (resolveFrom (fun _ => true) values' fs known' draws') := by
  induction fs generalizing changed known known' with
  | nil => exact .nil
  | cons f rest ih =>
      obtain ⟨mem, within⟩ := List.cons_subset.mp within
      have later (other : List String) (more : changed ⊆ other) :
          ∀ g ∈ rest, g.id ∉ other → g.given values = g.given values' :=
        fun g hg apart => given g (List.mem_cons_of_mem f hg) fun hit => apart (more hit)
      have ids : ∀ id ∈ all.map (·.id), '[' ∉ id.toList := by
        simpa using bracketless
      rw [resolveFrom_cons (plain f mem), resolveFrom_cons (plain f mem)]
      rcases affected_cons changed f rest with ⟨same, apart⟩ | more
      · have value (fresh : f.id ∉ changed) : f.plainValue values known = f.plainValue values' known' := by
          refine plainValue_congr keyed keyed' (fun _ => given f List.mem_cons_self fresh) ?_
          intro reference depends
          rw [Reference.source_eq ids]
          exact agree _ (apart reference depends)
        rw [same]
        refine .cons ⟨rfl, fun out => value fun hit => out (subset_affected changed rest hit)⟩ ?_
        refine ih within (later changed fun _ hit => hit) (keyed.cons mem _) (keyed'.cons mem _) ?_
        intro id fresh
        rw [lookup_cons_eq, lookup_cons_eq]
        split
        case isTrue here => rw [value (here ▸ fresh)]
        case isFalse => exact agree id fresh
      · rw [more]
        refine .cons ⟨rfl, fun out => absurd (subset_affected _ rest List.mem_cons_self) out⟩ ?_
        refine ih within (later _ (List.subset_cons_self _ _)) (keyed.cons mem _) (keyed'.cons mem _) ?_
        intro id fresh
        obtain ⟨other, fresh⟩ := not_or.mp (List.mem_cons.not.mp fresh)
        rw [lookup_cons_eq, lookup_cons_eq, if_neg other, if_neg other]
        exact agree id fresh

theorem lookup_initialValues_congr {changed : List String}
    (given : ∀ f ∈ fs, f.id ∉ changed → f.given values = f.given values') {id : String}
    (fresh : id ∉ changed) : (initialValues values fs).lookup id = (initialValues values' fs).lookup id := by
  induction fs using List.reverseRecOn with
  | nil => rfl
  | append_singleton fs f ih =>
      rw [initialValues_concat, initialValues_concat, lookup_cons_eq, lookup_cons_eq]
      split
      case isTrue same => rw [given f (by simp) (same ▸ fresh)]
      case isFalse => exact ih fun g mem => given g (List.mem_append_left _ mem)

/-- Where all fields are resolved, those that are not affected by the changed ones get the same from values
that differ for the changed ones only. -/
theorem resolveAll_unaffected {changed : List String} (bracketless : ∀ f ∈ fs, '[' ∉ f.id.toList)
    (plain : ∀ f ∈ fs, f.isGenerated = false)
    (agree : ∀ f ∈ fs, f.id ∉ changed → values.lookup f.id = values'.lookup f.id) (draws draws' : Draws) :
    (resolveAll fs values none draws).map Prod.fst = fs ∧
      List.Forall₂ (fun r r' => r.1 = r'.1 ∧ (isTarget fs (some changed) r.1 = false → r.2 = r'.2))
        (resolveAll fs values none draws) (resolveAll fs values' none draws') := by
  have given : ∀ f ∈ fs, f.id ∉ changed → f.given values = f.given values' := by
    intro f mem fresh
    rw [Field.given, Field.given, agree f mem fresh]
  have lockstep := resolveFrom_unaffected (List.Subset.refl fs) bracketless plain given
    (keyed_initialValues values fs) (keyed_initialValues values' fs)
    (fun id fresh => lookup_initialValues_congr given fresh) draws draws'
  refine ⟨resolveAll_fst fs values draws, lockstep.imp fun r r' both => ⟨both.1, fun out => both.2 ?_⟩⟩
  simpa [isTarget] using out

/-- A name with its first word and the initial of that, and a note that is written again. -/
def namePlate : List Field :=
  [{ id := "name", name := "name", kind := .text, elementId := none, currentValue := .text "Ann Lee" },
    { id := "first", name := "first", kind := .text, elementId := none, currentValue := .text "Ann",
      dependsOn := some "name[w1]" },
    { id := "initial", name := "initial", kind := .text, elementId := none, currentValue := .text "A",
      dependsOn := some "first[ch1]" },
    { id := "note", name := "note", kind := .text, elementId := none, currentValue := .text "n" },
    { id := "echo", name := "echo", kind := .text, elementId := none, dependsOn := some "note" }]

theorem namePlate_unaffected :
    (namePlate.map (isTarget namePlate (some ["name"])) = [true, true, true, false, false]) ∧
    (resolveAll namePlate [("name", .text "Bob Ray"), ("note", .text "x")] none (.cycling [])).map
      (·.2.display) = ["Bob Ray", "Bob", "B", "x", "x"] ∧
    (resolveAll namePlate [("name", .text "Bob Ray"), ("note", .text "x")] none (.cycling [])).map
      Prod.fst = namePlate ∧
    List.Forall₂ (fun r r' => r.1 = r'.1 ∧ (isTarget namePlate (some ["name"]) r.1 = false → r.2 = r'.2))
      (resolveAll namePlate [("name", .text "Bob Ray"), ("note", .text "x")] none (.cycling []))
      (resolveAll namePlate [("name", .null), ("note", .text "x")] none (.cycling [])) :=
  ⟨by decide, by decide, resolveAll_unaffected (by decide) (by decide)
    (by simp [namePlate, List.lookup_cons]) _ _⟩

/-! ## Resolving only what is affected -/

/-- The value of `f` is taken from that of `s`, which is resolved before it. -/
def Reads (fs : List Field) (f s : Field) : Prop :=
  [s, f].Sublist fs ∧
    ∃ reference, f.dependency? = some reference ∧ Reference.source (fs.map (·.id)) reference = s.id

/-- Whatever is resolved on the way to the value of `f` is resolved by `target` too: no field that depends on
another and is passed over is read, be it through others. -/
def Followed (fs : List Field) (target : Field → Bool) (f : Field) : Prop :=
  ∀ s, Relation.TransGen (Reads fs) f s → s.dependency?.isSome → target s = true

theorem Followed.of_reads (followed : Followed fs target f) (reads : Reads fs f s) :
    Followed fs target s :=
  fun _ path => followed _ (.head reads path)

/-- The same is known of a field, whether or not fields are passed over. -/
def Settled (fs : List Field) (target : Field → Bool) (s : Field) : Prop :=
  s.dependency?.isSome → target s = true ∧ Followed fs target s

/-- Of the fields that are resolved, those whose dependencies are followed get what they get where all fields
are. -/
theorem resolveFrom_followed {before : List Field} {all : List Field} (parted : all = before ++ fs)
    (distinct : (all.map (·.id)).Nodup) (plain : ∀ f ∈ all, f.isGenerated = false)
    (keyed : Keyed all known) (keyed' : Keyed all known')
    (fresh : ∀ f ∈ fs, known.lookup f.id = some (f.exposed (f.given values)))
    (agree : ∀ id, (∀ s ∈ before, s.id = id → Settled all target s) → known.lookup id = known'.lookup id)
    (draws draws' : Draws) :
    List.Forall₂ (fun r r' => r.1 = r'.1 ∧ (Followed all target r.1 → r.2 = r'.2))
      (resolveFrom target values fs known draws)
      ((resolveFrom (fun _ => true) values fs known' draws').filter (target ·.1)) := by
  -- What is known of a field before its turn is what it was given; after it, the two agree if it is settled.
  induction fs generalizing before known known' with
  | nil => exact .nil
  | cons f rest ih =>
      have mem : f ∈ all := by simp [parted]
      have next : all = (before ++ [f]) ++ rest := by simp [parted]
      have alone : ∀ g ∈ before ++ rest, g.id ≠ f.id := by
        have := distinct
        rw [parted, List.map_append, List.map_cons, List.nodup_middle, List.nodup_cons] at this
        rw [← List.map_append] at this
        exact fun g hg same => this.1 (same ▸ List.mem_map_of_mem hg)
      have value (followed : Followed all target f) :
          f.plainValue values known = f.plainValue values known' := by
        refine plainValue_congr keyed keyed' (fun _ => rfl) fun reference depends => ?_
        refine agree _ fun s hs same chosen => ?_
        have reads : Reads all f s := by
          refine ⟨?_, reference, depends, same.symm⟩
          rw [next]
          exact ((List.singleton_sublist.mpr hs).append (List.Sublist.refl [f])).trans
            (List.sublist_append_left _ rest)
        exact ⟨followed s (.single reads) chosen, followed.of_reads reads⟩
      rw [resolveFrom_cons (plain f mem)]
      cases hit : target f with
      | true =>
          rw [resolveFrom_cons_of_target hit (plain f mem), List.filter_cons_of_pos (by simpa using hit)]
          refine .cons ⟨rfl, value⟩ (ih next (keyed.cons mem _) (keyed'.cons mem _) ?_ ?_)
          · intro g hg
            rw [lookup_cons_eq, if_neg (alone g (List.mem_append_right _ hg))]
            exact fresh g (List.mem_cons_of_mem f hg)
          · intro id settled
            rw [lookup_cons_eq, lookup_cons_eq]
            split
            case isTrue here =>
              cases depends : f.dependency? with
              | none => simp only [plainValue, depends]
              | some reference =>
                  have own := settled f (by simp) here.symm (by simp [depends])
                  rw [value own.2]
            case isFalse =>
              exact agree id fun s hs => settled s (List.mem_append_left _ hs)
      | false =>
          rw [resolveFrom_cons_of_passed hit, List.filter_cons_of_neg (by simpa using hit)]
          refine ih next keyed (keyed'.cons mem _) ?_ ?_
          · exact fun g hg => fresh g (List.mem_cons_of_mem f hg)
          · intro id settled
            rw [lookup_cons_eq]
            split
            case isTrue here =>
              cases depends : f.dependency? with
              | none =>
                  rw [here, fresh f List.mem_cons_self]
                  simp only [plainValue, depends]
              | some reference =>
                  have own := settled f (by simp) here.symm (by simp [depends])
                  rw [hit] at own
                  exact absurd own.1 (by simp)
            case isFalse =>
              exact agree id fun s hs => settled s (List.mem_append_left _ hs)

/-- Where only the fields affected by changes are resolved, each whose dependencies are followed gets what it
gets where all fields are resolved. -/
theorem resolveAll_followed (distinct : (fs.map (·.id)).Nodup)
    (plain : ∀ f ∈ fs, f.isGenerated = false) (values : KnownValues) (changed : List String)
    (draws draws' : Draws) :
    (resolveAll fs values (some changed) draws).map Prod.fst = fs.filter (isTarget fs (some changed)) ∧
      List.Forall₂
        (fun r r' => r.1 = r'.1 ∧ (Followed fs (isTarget fs (some changed)) r.1 → r.2 = r'.2))
        (resolveAll fs values (some changed) draws)
        ((resolveAll fs values none draws').filter (isTarget fs (some changed) ·.1)) :=
  ⟨map_fst_resolveAll .., resolveFrom_followed (List.nil_append fs).symm distinct plain
    (keyed_initialValues values fs) (keyed_initialValues values fs)
    (fun _ mem => lookup_initialValues distinct mem) (fun _ _ => rfl) draws draws'⟩

/-- If only the initial changes, it is that of the first name that was there before. -/
theorem namePlate_not_followed : ¬ ∀ (fs : List Field) (values : KnownValues) (changed : List String)
    (draws : Draws), (fs.map (·.id)).Nodup → (∀ f ∈ fs, f.isGenerated = false) →
      List.Forall₂ (fun r r' => r.1 = r'.1 ∧ r.2 = r'.2) (resolveAll fs values (some changed) draws)
        ((resolveAll fs values none draws).filter (isTarget fs (some changed) ·.1)) := by
  intro agrees
  have rows := agrees namePlate [("name", .text "Bob Ray")] ["initial"] (.cycling []) (by decide)
    (by decide)
  have same : (resolveAll namePlate [("name", .text "Bob Ray")] (some ["initial"]) (.cycling [])).map
      (·.2.display) = ((resolveAll namePlate [("name", .text "Bob Ray")] none (.cycling [])).filter
        (isTarget namePlate (some ["initial"]) ·.1)).map (·.2.display) := by
    rw [← List.forall₂_eq_eq_eq]
    exact List.forall₂_map_left_iff.mpr (List.forall₂_map_right_iff.mpr
      (rows.imp fun _ _ both => congrArg Value.display both.2))
  exact absurd same (by decide)

/-- If the name changes, nothing on the way to the other parts of it is passed over. -/
theorem namePlate_followed :
    (∀ f, Followed namePlate (isTarget namePlate (some ["name"])) f) ∧
    (resolveAll namePlate [("name", .text "Bob Ray")] (some ["name"]) (.cycling [])).map (·.2.display) =
      ["Bob Ray", "Bob", "B"] ∧
    (resolveAll namePlate [("name", .text "Bob Ray")] (some ["name"]) (.cycling [])).map Prod.fst =
      namePlate.filter (isTarget namePlate (some ["name"])) ∧
    List.Forall₂
      (fun r r' => r.1 = r'.1 ∧ (Followed namePlate (isTarget namePlate (some ["name"])) r.1 → r.2 = r'.2))
      (resolveAll namePlate [("name", .text "Bob Ray")] (some ["name"]) (.cycling []))
      ((resolveAll namePlate [("name", .text "Bob Ray")] none (.cycling [])).filter
        (isTarget namePlate (some ["name"]) ·.1)) := by
  refine ⟨?_, by decide, resolveAll_followed (by decide) (by decide) _ _ _ _⟩
  have read : ∀ g ∈ namePlate, ∀ s ∈ namePlate,
      g.dependency?.any (Reference.source (namePlate.map (·.id)) · = s.id) = true →
        s.dependency?.isSome → isTarget namePlate (some ["name"]) s = true := by decide
  intro f s path chosen
  obtain ⟨g, -, order, reference, depends, source⟩ := Relation.TransGen.tail'_iff.mp path
  refine read g (order.subset (by simp)) s (order.subset (by simp)) ?_ chosen
  simp [depends, source]

end Field

end SvgForm
