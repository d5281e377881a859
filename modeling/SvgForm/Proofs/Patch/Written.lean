import SvgForm.Proofs.Patch.Replay
import SvgForm.Proofs.Xml.Change
/-! # What patches write

A patch that only writes comes down to one change of the element that its target leads to, and a run of such
patches to the changes that are made one after another. Where a target can mean one element only, an element
that stays in the tree gets just the changes of the patches that mean it, whatever else leaves the tree.
-/

namespace SvgForm

/-- The change that a patch makes to its element; nothing if it moves it. -/
def Patch.change? (p : Patch) : Option Xml.Change :=
  if p.isText then some (.text p.value.display)
  else if p.isReorder then none
  else
    match p.value with
    | .target _ => none
    | .scalar v =>
      some (if v.isBlank then .remove (Xml.qualify p.name) else .set (Xml.qualify p.name) v.display)

theorem Patch.text?_change? (p : Patch) :
    p.change?.bind (·.text?) = if p.isText then some p.value.display else none := by
  rw [change?]
  by_cases text : p.isText = true
  · rw [if_pos text, if_pos text]
    rfl
  · rw [if_neg text, if_neg text]
    split
    · rfl
    · cases p.value with
      | target t => rfl
      | scalar v => cases blank : v.isBlank <;> simp [Xml.Change.text?, blank]

/-- The patches among data. -/
def Datum.patches (raws : List Datum) : List Patch :=
  raws.filterMap fun raw => raw.toPatch.toOption

namespace Document

variable {d d' : Document} {holder target : String} {h x : Handle} {p : Patch} {ps : List Patch}

/-! ## Runs -/

/-- Applies patches in order; those that cannot be applied are passed over. -/
def run (d : Document) (holder : String) (ps : List Patch) : Document :=
  ps.foldl (fun d p => (d.applyPatch holder p).1) d

theorem run_cons (d : Document) (holder : String) (p : Patch) (ps : List Patch) :
    d.run holder (p :: ps) = (d.applyPatch holder p).1.run holder ps := rfl

theorem run_append (d : Document) (holder : String) (before after : List Patch) :
    d.run holder (before ++ after) = (d.run holder before).run holder after :=
  List.foldl_append

theorem fst_patchFrom (n : Nat) (raws : List Datum) (d : Document) :
    (patchFrom holder n raws d).1 = d.run holder (Datum.patches raws) := by
  induction raws generalizing n d with
  | nil => rfl
  | cons raw raws ih =>
      rw [fst_patchFrom_cons, ih, applyData]
      cases read : raw.toPatch <;> simp [Datum.patches, read, Except.toOption, run_cons]

theorem patchAll_eq_run (d : Document) (holder : String) (raws : List Datum) :
    (d.patchAll holder raws).1 = d.run holder (Datum.patches raws) :=
  fst_patchFrom 0 raws d

theorem sameLookups_run (hd : d.WellFormed) (spares : ∀ p ∈ ps, p.Spares holder) :
    SameLookups holder d (d.run holder ps) := by
  induction ps generalizing d with
  | nil => exact .refl hd
  | cons p ps ih =>
      have rest : ∀ q ∈ ps, q.Spares holder := fun q hq => spares q (List.mem_cons_of_mem p hq)
      rw [run_cons]
      have step := sameLookups_applyPatch hd (spares p List.mem_cons_self)
      exact step.trans (ih step.wellFormed rest)

/-! ## Where targets lead -/

/-- Whether one of the attributes by which an element is found has the value. -/
def Carries (d : Document) (holder target : String) (x : Handle) : Prop :=
  ∃ name ∈ lookupNames holder, d.get? x name = some target

instance : Decidable (d.Carries holder target x) :=
  inferInstanceAs (Decidable (∃ name ∈ lookupNames holder, d.get? x name = some target))

theorem SameLookups.carries_iff (same : SameLookups holder d d') :
    d'.Carries holder target x ↔ d.Carries holder target x := by
  refine exists_congr fun name => and_congr_right fun mem => ?_
  rw [same.get? x name mem]

theorem locate?_spec (located : d.locate? holder target = some h) :
    target ≠ "" ∧ h ∈ d.handles ∧ d.Carries holder target h := by
  refine ⟨?_, mem_handles_of_find? located, ?_⟩
  · rintro rfl
    simp [locate?, find?] at located
  · rw [locate?, find?] at located
    split at located
    case isTrue => cases located
    case isFalse =>
      obtain ⟨name, mem, first⟩ := List.exists_of_findSome?_eq_some located
      exact ⟨name, mem, by simpa using List.find?_some first⟩

theorem exists_locate? (nonempty : target ≠ "") (hx : x ∈ d.handles)
    (carries : d.Carries holder target x) : ∃ h, d.locate? holder target = some h := by
  obtain ⟨name, mem, has⟩ := carries
  rw [locate?, find?, if_neg nonempty]
  refine Option.isSome_iff_exists.mp (List.findSome?_isSome_iff.mpr ⟨name, mem, ?_⟩)
  exact List.find?_isSome.mpr ⟨x, hx, by simpa using has⟩

/-! ## Changes of a document -/

/-- Makes a change to an element. One that gets a text loses what is below it. -/
def write (d : Document) (w : Handle × Xml.Change) : Document :=
  match w.2 with
  | .text s => d.setText w.1 s
  | c => d.mapElement w.1 c.apply

/-- The change that a patch comes down to, with the element that its target leads to. -/
def write? (d : Document) (holder : String) (p : Patch) : Option (Handle × Xml.Change) :=
  (d.locate? holder p.id).bind fun h => p.change?.map (h, ·)

/-- The changes that patches make one after another. -/
def writes (holder : String) : List Patch → Document → List (Handle × Xml.Change)
  | [], _ => []
  | p :: ps, d =>
    match d.write? holder p with
    | some w => w :: writes holder ps (d.write w)
    | none => writes holder ps d

/-- Those that are made to one element. -/
def changesAt (x : Handle) (ws : List (Handle × Xml.Change)) : List Xml.Change :=
  ws.filterMap fun w => if x = w.1 then some w.2 else none

theorem applyPatch_eq_write (writer : p.isReorder = false) :
    (d.applyPatch holder p).1 = ((d.write? holder p).map d.write).getD d := by
  simp only [applyPatch, write?]
  cases d.locate? holder p.id with
  | none => rfl
  | some h =>
      rw [Option.bind_some, Patch.change?, writer]
      by_cases text : p.isText = true
      · simp only [text, if_true]
        rfl
      · simp only [text, Bool.false_eq_true, if_false]
        cases p.value with
        | target t => rfl
        | scalar v => cases blank : v.isBlank <;> simp [blank, write] <;> rfl

theorem run_cons_of_write {w : Handle × Xml.Change} (writer : p.isReorder = false)
    (made : d.write? holder p = some w) : d.run holder (p :: ps) = (d.write w).run holder ps := by
  rw [run_cons, applyPatch_eq_write writer, made]
  rfl

theorem run_cons_of_none (writer : p.isReorder = false) (made : d.write? holder p = none) :
    d.run holder (p :: ps) = d.run holder ps := by
  rw [run_cons, applyPatch_eq_write writer, made]
  rfl

theorem writes_cons_of_write {w : Handle × Xml.Change} (made : d.write? holder p = some w) :
    d.writes holder (p :: ps) = w :: (d.write w).writes holder ps := by
  simp only [writes, made]

theorem writes_cons_of_none (made : d.write? holder p = none) :
    d.writes holder (p :: ps) = d.writes holder ps := by
  simp only [writes, made]

theorem size_write (d : Document) (w : Handle × Xml.Change) :
    (d.write w).elements.size = d.elements.size := by
  rw [write]
  split
  · exact Array.size_modify ..
  · exact Array.size_modify ..

theorem wellFormed_write (hd : d.WellFormed) (w : Handle × Xml.Change) : (d.write w).WellFormed := by
  rw [write]
  split
  · exact hd.setText ..
  · exact hd.mapElement ..

theorem element_write {w : Handle × Xml.Change} (hw : w.1 < d.elements.size) :
    (d.write w).element x = if x = w.1 then w.2.apply (d.element x) else d.element x := by
  obtain ⟨h, c⟩ := w
  cases c with
  | text s => exact element_setText hw s
  | set name value => exact element_mapElement _ hw
  | remove name => exact element_mapElement _ hw

theorem handles_write_subset (d : Document) (w : Handle × Xml.Change) :
    (d.write w).handles ⊆ d.handles := by
  intro x hx
  rw [write] at hx
  split at hx
  · exact Forest.mem_of_mapChildren (fun _ mem => absurd mem List.not_mem_nil) hx
  · exact hx

theorem children_write {w : Handle × Xml.Change} (hd : d.WellFormed) (hw : w.1 ∈ d.handles) :
    (d.write w).children x = if x = w.1 ∧ w.2.text?.isSome then [] else d.children x := by
  obtain ⟨h, c⟩ := w
  cases c with
  | set name value => exact (if_neg fun both => Bool.false_ne_true both.2).symm
  | remove name => exact (if_neg fun both => Bool.false_ne_true both.2).symm
  | text s =>
      change (d.setText h s).children x = if x = h ∧ true = true then [] else d.children x
      by_cases here : x = h
      · rw [here, if_pos ⟨rfl, rfl⟩, children, below_setText_self hd (hd.lt_size hw)]
        rfl
      · rw [if_neg fun both => here both.1, children, below_setText_eq hd (hd.lt_size hw), if_neg here,
          Forest.roots_mapChildren, children]

/-! ## What a run makes of an element -/

theorem changesAt_cons (x : Handle) (w : Handle × Xml.Change) (ws : List (Handle × Xml.Change)) :
    changesAt x (w :: ws) = if x = w.1 then w.2 :: changesAt x ws else changesAt x ws := by
  rw [changesAt, List.filterMap_cons]
  by_cases here : x = w.1 <;> simp [here, changesAt]

theorem write?_spec {w : Handle × Xml.Change} (made : d.write? holder p = some w) :
    d.locate? holder p.id = some w.1 ∧ p.change? = some w.2 := by
  obtain ⟨h, located, rest⟩ := Option.bind_eq_some_iff.mp made
  obtain ⟨c, change, rfl⟩ := Option.map_eq_some_iff.mp rest
  exact ⟨located, change⟩

theorem handles_run_subset (writers : ∀ p ∈ ps, p.isReorder = false) :
    (d.run holder ps).handles ⊆ d.handles := by
  induction ps, d using writes.induct holder with
  | case1 d => exact fun _ hx => hx
  | case2 p ps d w made ih =>
      obtain ⟨writer, rest⟩ := List.forall_mem_cons.mp writers
      rw [run_cons_of_write writer made]
      exact fun x hx => handles_write_subset d w (ih rest hx)
  | case3 p ps d made ih =>
      obtain ⟨writer, rest⟩ := List.forall_mem_cons.mp writers
      rw [run_cons_of_none writer made]
      exact ih rest

theorem element_run (hd : d.WellFormed) (writers : ∀ p ∈ ps, p.isReorder = false) (x : Handle) :
    (d.run holder ps).element x = Xml.Change.applyAll (changesAt x (d.writes holder ps)) (d.element x) := by
  induction ps, d using writes.induct holder with
  | case1 d => rfl
  | case2 p ps d w made ih =>
      obtain ⟨writer, rest⟩ := List.forall_mem_cons.mp writers
      have hw := hd.lt_size (locate?_spec (write?_spec made).1).2.1
      rw [run_cons_of_write writer made, writes_cons_of_write made, changesAt_cons,
        ih (wellFormed_write hd w) rest, element_write hw]
      by_cases here : x = w.1
      · rw [if_pos here, if_pos here]
        rfl
      · rw [if_neg here, if_neg here]
  | case3 p ps d made ih =>
      obtain ⟨writer, rest⟩ := List.forall_mem_cons.mp writers
      rw [run_cons_of_none writer made, writes_cons_of_none made, ih hd rest]

/-- An element that gets a text has no children from then on. -/
theorem children_run (hd : d.WellFormed) (writers : ∀ p ∈ ps, p.isReorder = false)
    (hx : x ∈ (d.run holder ps).handles) : (d.run holder ps).children x =
      if (changesAt x (d.writes holder ps)).filterMap (·.text?) = [] then d.children x else [] := by
  induction ps, d using writes.induct holder with
  | case1 d => rfl
  | case2 p ps d w made ih =>
      obtain ⟨writer, rest⟩ := List.forall_mem_cons.mp writers
      have hw := (locate?_spec (write?_spec made).1).2.1
      rw [run_cons_of_write writer made] at hx ⊢
      rw [writes_cons_of_write made, changesAt_cons, ih (wellFormed_write hd w) rest hx, children_write hd hw]
      by_cases here : x = w.1
      · rw [if_pos here, List.filterMap_cons]
        cases w.2.text? <;> simp [here]
      · simp only [here, false_and, if_false]
  | case3 p ps d made ih =>
      obtain ⟨writer, rest⟩ := List.forall_mem_cons.mp writers
      rw [run_cons_of_none writer made] at hx ⊢
      rw [writes_cons_of_none made, ih hd rest hx]

/-- Where it is known which patches lead to an element when their turn comes, so are the changes that are made
to it. -/
theorem changesAt_writes {means : Patch → Prop} [DecidablePred means]
    (writers : ∀ p ∈ ps, p.isReorder = false) (leads : ∀ before p after, ps = before ++ p :: after →
      ((d.run holder before).locate? holder p.id = some x ↔ means p)) :
    changesAt x (d.writes holder ps) = ps.filterMap fun p => if means p then p.change? else none := by
  induction ps, d using writes.induct holder with
  | case1 d => rfl
  | case2 p ps d w made ih =>
      obtain ⟨writer, rest⟩ := List.forall_mem_cons.mp writers
      obtain ⟨located, change⟩ := write?_spec made
      have first : w.1 = x ↔ means p := by
        rw [← leads [] p ps rfl, run, List.foldl_nil, located, Option.some.injEq]
      have later := ih rest fun before q after eq => by
        rw [← leads (p :: before) q after (by rw [eq]; rfl), run_cons_of_write writer made]
      rw [writes_cons_of_write made, changesAt_cons, List.filterMap_cons, later, change]
      by_cases here : x = w.1
      · rw [if_pos here, if_pos (first.mp here.symm)]
      · rw [if_neg here, if_neg fun meant => here (first.mpr meant).symm]
  | case3 p ps d made ih =>
      obtain ⟨writer, rest⟩ := List.forall_mem_cons.mp writers
      have later := ih rest fun before q after eq => by
        rw [← leads (p :: before) q after (by rw [eq]; rfl), run_cons_of_none writer made]
      have nothing : (if means p then p.change? else none) = none := by
        refine ite_eq_right_iff.mpr fun meant => ?_
        have located : d.locate? holder p.id = some x := (leads [] p ps rfl).mpr meant
        rwa [write?, located, Option.bind_some, Option.map_eq_none_iff] at made
      rw [writes_cons_of_none made, List.filterMap_cons, nothing, later]

end Document

end SvgForm
