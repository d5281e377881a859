import SvgForm.Proofs.Identity.Characters
import SvgForm.Proofs.Patch.LastWrite
import SvgForm.Proofs.Xml.AttributeOrder
/-! # Replayed documents that are read again

Identities and patches leave a document with characters that markup may hold, as long as the patches bring in no
others. What keeps its markup from being read is then what its attributes are called.
-/

namespace SvgForm

namespace Xml

variable {c : Change} {e : Element}

/-! ## Changes of an element -/

/-- What is written is made of characters that markup may hold. -/
def Change.Clean : Change → Prop
  | .text s | .set _ s => Xml.Clean s.toList
  | .remove _ => True

instance : (c : Change) → Decidable c.Clean
  | .text s | .set _ s => inferInstanceAs (Decidable (Xml.Clean s.toList))
  | .remove _ => .isTrue trivial

/-- Attributes may be called by the name, whatever namespaces are bound. -/
structure Nameable (name : String) : Prop where
  expansion : ∃ uri label, Expansion name uri label
  other : name ≠ "xmlns"
  lasts : lasts name = true

/-- Labels are such names, bare ones other than `xmlns` and those in a namespace that is written with a short form. -/
theorem Nameable.of_isLabel (uri? : Option String) {label : String} (start : isLabel label.toList = true)
    (spaced : ∀ uri ∈ uri?, Spaces.Declarable uri ∧ Xml.Clean uri.toList ∧ uri ≠ svgNamespace)
    (bare : uri? = none → label ≠ "xmlns") : Nameable (uri?.elim label (expanded · label)) := by
  have filled : label ≠ "" := by
    rintro rfl
    cases start
  have expansion : Expansion (uri?.elim label (expanded · label)) uri? label :=
    ⟨rfl, fun uri mem => (spaced uri mem).1, fun uri mem => clean_iff.mp (spaced uri mem).2.1, filled,
      fun _ => isNameChar_of_mem_label start⟩
  refine ⟨⟨uri?, label, expansion⟩, ?_, (lasts_iff expansion.splitName_eq).mpr ⟨fun same => ?_, ?_⟩⟩
  · cases uri? with
    | none => exact bare rfl
    | some uri =>
        intro same
        have lists := congrArg String.toList same
        rw [Option.elim_some, toList_expanded] at lists
        exact absurd (List.cons.inj lists).1 (by decide)
  · exact (spaced svgNamespace same).2.2 rfl
  · exact (isLabel_iff expansion.label_chars).mp start

theorem Element.Clean.apply (clean : e.Clean) (change : c.Clean) : (c.apply e).Clean := by
  cases c with
  | text s => exact ⟨clean.name, clean.values, change, clean.tail⟩
  | set name value =>
      refine ⟨clean.name, fun a mem => ?_, clean.text, clean.tail⟩
      rcases Change.mem_setAttribute mem with old | rfl
      · exact clean.values a old
      · exact change
  | remove name => exact ⟨clean.name, fun a mem => clean.values a (List.mem_filter.mp mem).1, clean.text, clean.tail⟩

/-- A legible element whose names last. -/
structure Element.Proper (e : Element) : Prop where
  legible : e.Legible
  names : ∀ a ∈ e.attributes, lasts a.1 = true

/-- A change that sets only attributes whose names last. -/
structure Change.Proper (c : Change) : Prop where
  clean : c.Clean
  name : ∀ name value, c = .set name value → Nameable name

theorem Element.Proper.apply (proper : e.Proper) (change : c.Proper) : (c.apply e).Proper := by
  obtain ⟨legible, names⟩ := proper
  obtain ⟨clean, nameable⟩ := change
  cases c with
  | text s => exact ⟨⟨legible.name, legible.attributes, legible.distinct, clean, legible.tail⟩, names⟩
  | set name value =>
      have nameable := nameable name value rfl
      refine ⟨⟨legible.name, fun a mem => ?_, Change.nodup_setAttribute legible.distinct, legible.text, legible.tail⟩,
        fun a mem => ?_⟩
      · rcases Change.mem_setAttribute mem with old | rfl
        · exact legible.attributes a old
        · exact ⟨nameable.expansion, nameable.other, clean⟩
      · rcases Change.mem_setAttribute mem with old | rfl
        · exact names a old
        · exact nameable.lasts
  | remove name =>
      have kept {a : String × String} (mem : a ∈ e.attributes.filter (·.1 ≠ name)) := (List.mem_filter.mp mem).1
      refine ⟨⟨legible.name, fun a mem => legible.attributes a (kept mem), ?_, legible.text, legible.tail⟩,
        fun a mem => names a (kept mem)⟩
      exact legible.distinct.sublist (List.filter_sublist.map Prod.fst)

end Xml

/-- What the patch writes is made of characters that markup may hold. -/
def Patch.Clean (p : Patch) : Prop :=
  ∀ c ∈ p.change?, c.Clean

instance (p : Patch) : Decidable p.Clean :=
  inferInstanceAs (Decidable (∀ c ∈ p.change?, c.Clean))

namespace Document

variable {d d' : Document} {holder : String} {p : Patch} {ps : List Patch} {h : Handle}

/-! ## Documents of such elements -/

section

variable {P : Xml.Element → Prop}

theorem Consists.move? {side : Forest.Side} {r : Handle} (consists : d.Consists P)
    (moved : d.move? side h r = some d') : d'.Consists P := by
  have wellFormed := consists.wellFormed.move? moved
  obtain ⟨-, outline, made, rfl⟩ := move?_eq_some_iff.mp moved
  refine ⟨wellFormed, consists.named, consists.last, fun x mem => ?_⟩
  exact consists.elements x ((Forest.perm_move? made).subset mem)

variable {Q : Xml.Change → Prop} (keeps : ∀ e c, P e → Q c → P (c.apply e))

include keeps

theorem Consists.write {w : Handle × Xml.Change} (consists : d.Consists P) (hw : w.1 ∈ d.handles) (change : Q w.2) :
    (d.write w).Consists P := by
  have element (x : Handle) := element_write (x := x) (consists.wellFormed.lt_size hw)
  refine ⟨wellFormed_write consists.wellFormed w, ?_, ?_, fun x mem => ?_⟩
  · rw [tag, element]
    split
    · exact consists.named
    · exact consists.named
  · rw [element]
    split
    · exact consists.last
    · exact consists.last
  · rw [element]
    split
    · exact keeps _ _ (consists.elements x (handles_write_subset d w mem)) change
    · exact consists.elements x (handles_write_subset d w mem)

theorem Consists.applyPatch (consists : d.Consists P) (change : ∀ c, p.change? = some c → Q c) :
    (d.applyPatch holder p).1.Consists P := by
  by_cases mover : p.isReorder = true
  · rcases applyPatch_cases_of_isReorder mover with stays | ⟨_, _, _, moved⟩
    · rw [stays]
      exact consists
    · exact consists.move? moved
  · rw [applyPatch_eq_write (Bool.not_eq_true _ ▸ mover)]
    cases made : d.write? holder p with
    | none => exact consists
    | some w =>
        obtain ⟨located, made⟩ := write?_spec made
        exact consists.write keeps (locate?_spec located).2.1 (change _ made)

/-- What changes keep of every element, patches that make such changes keep. -/
theorem Consists.run (consists : d.Consists P) (changes : ∀ p ∈ ps, ∀ c, p.change? = some c → Q c) :
    (d.run holder ps).Consists P := by
  induction ps generalizing d with
  | nil => exact consists
  | cons p ps ih =>
      obtain ⟨change, changes⟩ := List.forall_mem_cons.mp changes
      rw [run_cons]
      exact ih (consists.applyPatch keeps change) changes

theorem Consists.setEach {l : List (Handle × String)} (consists : d.Consists P)
    (values : ∀ entry ∈ l, entry.1 ∈ d.handles ∧ Q (.set (Xml.qualify holder) entry.2)) :
    (d.setEach holder l).Consists P := by
  induction l generalizing d with
  | nil => exact consists
  | cons entry l ih =>
      obtain ⟨first, later⟩ := List.forall_mem_cons.mp values
      have set : (d.set entry.1 holder entry.2).Consists P :=
        consists.write keeps (w := (entry.1, .set (Xml.qualify holder) entry.2)) first.1 first.2
      exact ih set later

/-- The same for identities. -/
theorem Consists.ensureIdentities (consists : d.Consists P) (clean : ∀ e, P e → e.Clean)
    (change : ∀ value, Xml.Clean value.toList → Q (.set (Xml.qualify holder) value)) :
    (d.ensureIdentities holder).Consists P := by
  refine consists.setEach keeps fun entry mem => ?_
  rw [consists.wellFormed.identities_eq holder] at mem
  obtain ⟨x, hx, rfl⟩ := List.mem_map.mp mem
  exact ⟨eligible_subset hx, change _ (clean_identityOf (consists.imp clean) hx)⟩

end

/-! ## Replayed documents -/

section

variable {markup : String} {raws : List Datum} (parsed : parse markup = .ok d)
  (changes : ∀ p ∈ Datum.patches raws, p.Clean)

include parsed changes

theorem consists_clean_replay : (d.replay holder raws).1.Consists Xml.Element.Clean := by
  have keeps (e : Xml.Element) (c : Xml.Change) (clean : e.Clean) (change : c.Clean) := clean.apply change
  rw [replay, patchAll_eq_run]
  refine Consists.run keeps ?_ changes
  exact ((consists_of_parse parsed).imp fun _ => Xml.Element.Legible.clean).ensureIdentities keeps (fun _ => id)
    fun _ clean => clean

/-- Where nothing but names that last is set, nothing but such names is there after a replay. -/
theorem wellNamed_replay (base : ∀ h ∈ d.handles, ∀ a ∈ (d.element h).attributes, Xml.lasts a.1 = true)
    (identity : Xml.Nameable (Xml.qualify holder))
    (names : ∀ p ∈ Datum.patches raws, ∀ name value, p.change? = some (.set name value) → Xml.Nameable name) :
    (d.replay holder raws).1.WellNamed := by
  have keeps (e : Xml.Element) (c : Xml.Change) (proper : e.Proper) (change : c.Proper) := proper.apply change
  have legible := consists_of_parse parsed
  have start : d.Consists Xml.Element.Proper :=
    ⟨legible.wellFormed, legible.named, legible.last, fun h mem => ⟨legible.elements h mem, base h mem⟩⟩
  have identified : (d.ensureIdentities holder).Consists Xml.Element.Proper :=
    start.ensureIdentities keeps (fun _ proper => proper.legible.clean) fun value clean =>
      ⟨clean, fun name _ same => (Xml.Change.set.inj same).1 ▸ identity⟩
  have replayed : (d.replay holder raws).1.Consists Xml.Element.Proper := by
    rw [replay, patchAll_eq_run]
    refine identified.run keeps fun p mem c made => ⟨changes p mem c made, ?_⟩
    rintro name value rfl
    exact names p mem name value made
  exact wellNamed_of_lasts (replayed.imp fun _ => Xml.Element.Proper.legible) fun h mem => (replayed.elements h mem).names

end

/-- The markup of a replayed document is read again, and no attribute in it is written as more than one, exactly if
the names of the document have namespaces where they are written. Names that last always have. -/
theorem replay_reloads_iff {markup : String} {raws : List Datum} (parsed : parse markup = .ok d)
    (changes : ∀ p ∈ Datum.patches raws, p.Clean) :
    ((d.replay holder raws).1.Reloads ∧
        (∀ h ∈ (d.replay holder raws).1.handles, ((d.replay holder raws).1.element h).Whole) ↔
      (d.replay holder raws).1.WellNamed) ∧
    ((∀ h ∈ d.handles, ∀ a ∈ (d.element h).attributes, Xml.lasts a.1 = true) → Xml.Nameable (Xml.qualify holder) →
      (∀ p ∈ Datum.patches raws, ∀ name value, p.change? = some (.set name value) → Xml.Nameable name) →
      (d.replay holder raws).1.Reloads) := by
  have clean : (d.replay holder raws).1.Consists Xml.Element.Clean := consists_clean_replay parsed changes
  have iff := reloads_iff clean
  exact ⟨iff, fun base identity names => (iff.mpr (wellNamed_replay parsed changes base identity names)).1⟩

/-- A patch for an attribute behind a short form that no namespace has. -/
def strayPatches : List Datum :=
  [valuePatch "A" "inkscape:label" (.text "b")]

theorem stray_not_reloads : ∃ d, parse "<svg><rect id=\"A\"/></svg>" = .ok d ∧ d.Reloads ∧
    (∀ raw ∈ strayPatches, ∃ p, raw.toPatch = .ok p) ∧ (∀ p ∈ Datum.patches strayPatches, p.Clean) ∧
      ¬ (d.replay identityAttribute strayPatches).1.Reloads := by
  have before : (parse "<svg><rect id=\"A\"/></svg>").toOption.any (fun d =>
      decide (d.Reloads ∧ ¬ (d.replay identityAttribute strayPatches).1.Reloads)) = true := by decide +kernel
  obtain ⟨d, parsed, before⟩ := exists_of_parsed before
  obtain ⟨reloads, lost⟩ := of_decide_eq_true before
  refine ⟨d, parsed, reloads, ?_, ?_, lost⟩
  · exact List.forall_mem_singleton.mpr ⟨_, rfl⟩
  · decide +kernel

/-- A link behind a known short form, and a bare attribute. -/
def linkPatches : List Datum :=
  [valuePatch "b" "xlink:href" (.text "#d"), valuePatch "b" "fill" (.text "<&>")]

def anchorMarkup : String :=
  "<svg xmlns=\"http://www.w3.org/2000/svg\" xmlns:l=\"http://www.w3.org/1999/xlink\"><a id=\"b\" l:href=\"#c\"/></svg>"

theorem link_reloads : ∃ d, parse anchorMarkup = .ok d ∧
    (d.replay identityAttribute linkPatches).1.get? 1 "xlink:href" = some "#d" ∧
      (d.replay identityAttribute linkPatches).1.Reloads := by
  have lasting : (parse anchorMarkup).toOption.any (fun d =>
      decide ((∀ h ∈ d.handles, ∀ a ∈ (d.element h).attributes, Xml.lasts a.1 = true) ∧
        (d.replay identityAttribute linkPatches).1.get? 1 "xlink:href" = some "#d")) = true := by decide +kernel
  obtain ⟨d, parsed, lasting⟩ := exists_of_parsed lasting
  obtain ⟨lasting, linked⟩ := of_decide_eq_true lasting
  have bare {label : String} (start : Xml.isLabel label.toList = true ∧ label ≠ "xmlns") : Xml.Nameable label :=
    .of_isLabel none start.1 (by simp) fun _ => start.2
  have link : Xml.Nameable (Xml.expanded Xml.xlinkNamespace "href") :=
    .of_isLabel (some Xml.xlinkNamespace) (by decide) (by decide) (by simp)
  have identity : Xml.Nameable (Xml.qualify identityAttribute) := bare (by decide)
  have clean : ∀ p ∈ Datum.patches linkPatches, p.Clean := by decide +kernel
  have names : ∀ p ∈ Datum.patches linkPatches, ∀ name value, p.change? = some (.set name value) →
      Xml.Nameable name := by
    intro p mem name value made
    have written : (Datum.patches linkPatches).map Patch.change? =
        [some (.set (Xml.expanded Xml.xlinkNamespace "href") "#d"), some (.set "fill" "<&>")] := by decide +kernel
    have listed := List.mem_map_of_mem (f := Patch.change?) mem
    rw [written, made, List.mem_pair, Option.some.injEq, Option.some.injEq] at listed
    rcases listed with same | same
    · exact (Xml.Change.set.inj same).1 ▸ link
    · exact (Xml.Change.set.inj same).1 ▸ bare (by decide)
  exact ⟨d, parsed, linked, (replay_reloads_iff parsed clean).2 lasting identity names⟩

end Document

end SvgForm
