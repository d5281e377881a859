import SvgForm.Proofs.Patch.Written
/-! # The last write counts

Where every target can mean one element at most, a run of patches that only write leaves each element that
stays in the tree with what the last patch for it wrote: for its text, and for each of its attributes. It does
not matter which elements leave the tree on the way, and which patches are skipped for that reason.
-/

namespace SvgForm

namespace Patch

/-- Whether the patch sets or removes the attribute. -/
def concerns (name : String) (p : Patch) : Bool :=
  !p.isText && Xml.qualify p.name = Xml.qualify name

/-- What a patch leaves of the attribute that it names. -/
def written? (p : Patch) : Option String :=
  match p.value with
  | .target _ => none
  | .scalar v => if v.isBlank then none else some v.display

/-- A patch that writes a scalar value, but to no attribute by which elements are found, and whose target can
mean one element at most. -/
structure Definite (p : Patch) (d : Document) (holder : String) : Prop where
  scalar : ∃ v, p.value = .scalar v
  writer : p.isReorder = false
  spares : p.Spares holder
  named : p.id ≠ ""
  unique : ∀ x ∈ d.handles, ∀ y ∈ d.handles,
    d.Carries holder p.id x → d.Carries holder p.id y → x = y

variable {p : Patch}

theorem attribute?_change? {v : Value} (scalar : p.value = .scalar v) (writer : p.isReorder = false)
    (name : String) : p.change?.bind (·.attribute? (Xml.qualify name)) =
      if p.concerns name then some p.written? else none := by
  rw [change?, writer, scalar, concerns, written?, scalar]
  by_cases text : p.isText = true
  · simp [text, Xml.Change.attribute?]
  · cases blank : v.isBlank <;> simp [text, blank, Xml.Change.attribute?]

end Patch

namespace Document

variable {d : Document} {holder : String} {raws : List Datum} {ps : List Patch} {e : Handle}

/-- The last of the chosen patches whose target means the element. -/
def lastFor? (d : Document) (holder : String) (ps : List Patch) (e : Handle) (chosen : Patch → Bool) :
    Option Patch :=
  (ps.filter fun p => d.Carries holder p.id e && chosen p).getLast?

section

variable {α β : Type} {f : α → Option β} {q : α → Bool} {g : α → β} {l : List α}

theorem filterMap_of (each : ∀ a ∈ l, f a = if q a then some (g a) else none) :
    l.filterMap f = (l.filter q).map g := by
  rw [List.filterMap_congr each, ← List.filterMap_eq_map, List.filterMap_filter]
  rfl

theorem getLast?_filterMap_of (each : ∀ a ∈ l, f a = if q a then some (g a) else none) (b : β) :
    (l.filterMap f).getLast?.getD b = (l.filter q).getLast?.elim b g := by
  rw [filterMap_of each, List.getLast?_map]
  cases (l.filter q).getLast? <;> rfl

end

/-- A target that can mean one element only leads to it as long as it is in the tree. -/
theorem locate?_run_iff {p : Patch} {before : List Patch} (hd : d.WellFormed)
    (writers : ∀ q ∈ before, q.isReorder = false) (spares : ∀ q ∈ before, q.Spares holder)
    (definite : p.Definite d holder) (he : e ∈ (d.run holder before).handles) :
    (d.run holder before).locate? holder p.id = some e ↔ d.Carries holder p.id e := by
  have same := sameLookups_run hd spares
  have older : (d.run holder before).handles ⊆ d.handles := handles_run_subset writers
  constructor
  · intro located
    exact same.carries_iff.mp (locate?_spec located).2.2
  · intro carries
    obtain ⟨h, located⟩ := exists_locate? definite.named he (same.carries_iff.mpr carries)
    obtain ⟨_, attached, carries'⟩ := locate?_spec located
    rw [located, definite.unique h (older attached) e (older he) (same.carries_iff.mp carries') carries]

theorem changesAt_of_definite (hd : d.WellFormed) (definite : ∀ p ∈ ps, p.Definite d holder)
    (he : e ∈ (d.run holder ps).handles) : changesAt e (d.writes holder ps) =
      ps.filterMap fun p => if d.Carries holder p.id e then p.change? else none := by
  refine changesAt_writes (fun p hp => (definite p hp).writer) ?_
  rintro before p after rfl
  rw [List.forall_mem_append] at definite
  rw [run_append] at he
  have attached := handles_run_subset (fun q hq => (definite.2 q hq).writer) he
  exact locate?_run_iff hd (fun q hq => (definite.1 q hq).writer) (fun q hq => (definite.1 q hq).spares)
    (definite.2 p List.mem_cons_self) attached

/-- An element that is still in the tree has as its text and as the value of an attribute what the last patch
for it wrote there, and its children only if no patch gave it a text. -/
theorem patchAll_last (hd : d.Reachable) (definite : ∀ p ∈ Datum.patches raws, p.Definite d holder)
    (he : e ∈ (d.patchAll holder raws).1.handles) :
    e ∈ d.handles ∧
    (∀ name, (d.patchAll holder raws).1.get? e name =
      (d.lastFor? holder (Datum.patches raws) e (Patch.concerns name)).elim (d.get? e name)
        Patch.written?) ∧
    ((d.patchAll holder raws).1.element e).text =
      (d.lastFor? holder (Datum.patches raws) e Patch.isText).elim (d.element e).text (·.value.display) ∧
    (d.patchAll holder raws).1.children e =
      (d.lastFor? holder (Datum.patches raws) e Patch.isText).elim (d.children e) fun _ => [] := by
  have writers : ∀ p ∈ Datum.patches raws, p.isReorder = false := fun p hp => (definite p hp).writer
  rw [patchAll_eq_run] at he ⊢
  have changes := changesAt_of_definite hd.wellFormed definite he
  have element : (d.run holder (Datum.patches raws)).element e = _ := element_run hd.wellFormed writers e
  have children := children_run hd.wellFormed writers he
  rw [changes] at element children
  have texts : ∀ p ∈ Datum.patches raws,
      (if d.Carries holder p.id e then p.change? else none).bind (·.text?) =
        if d.Carries holder p.id e && p.isText then some p.value.display else none := by
    intro p _
    by_cases meant : d.Carries holder p.id e
    · simp [meant, Patch.text?_change?]
    · simp [meant]
  refine ⟨handles_run_subset writers he, fun name => ?_, ?_, ?_⟩
  · rw [get?, element, Xml.Element.attribute?, Xml.Change.applyAll_eq, Xml.Change.lookup_attributesAfter,
      List.filterMap_filterMap]
    refine getLast?_filterMap_of (fun p hp => ?_) _
    by_cases meant : d.Carries holder p.id e
    · obtain ⟨v, scalar⟩ := (definite p hp).scalar
      simp [meant, Patch.attribute?_change? scalar (writers p hp)]
    · simp [meant]
  · rw [element, Xml.Change.applyAll_eq, List.filterMap_filterMap]
    exact getLast?_filterMap_of texts _
  · rw [children, List.filterMap_filterMap, filterMap_of texts, lastFor?]
    cases (Datum.patches raws).filter _ with
    | nil => rfl
    | cons p rest => simp [List.getLast?_cons]

/-- A patch that writes a value. -/
def valuePatch (target name : String) (v : Value) : Datum :=
  .record [("id", .value (.text target)), ("attribute", .value (.text name)), ("value", .value v)]

/-- A group with a rectangle in it, and a rectangle after it. -/
def nested : Document :=
  ofTree (.node { name := "svg" }
    (.node { name := "g", attributes := [("id", "A")] }
      (.ofRoots [{ name := "rect", attributes := [("id", "B")] }])
      (.ofRoots [{ name := "rect", attributes := [("id", "C"), ("fill", "red")] }])) .nil)

/-- The text takes the inner rectangle out of the tree, between two patches for it. -/
def nestedPatches : List Datum :=
  [valuePatch "B" "fill" (.text "blue"), valuePatch "C" "fill" .null,
    valuePatch "A" Patch.textName (.text "once"), valuePatch "B" "fill" (.text "green"),
    valuePatch "C" "opacity" (.number (.int 1)), valuePatch "A" Patch.textName (.text "twice"),
    valuePatch "C" "fill" (.text "black")]

theorem patches_nestedPatches : Datum.patches nestedPatches =
    [⟨"B", "fill", .scalar (.text "blue")⟩, ⟨"C", "fill", .scalar .null⟩,
      ⟨"A", Patch.textName, .scalar (.text "once")⟩, ⟨"B", "fill", .scalar (.text "green")⟩,
      ⟨"C", "opacity", .scalar (.number (.int 1))⟩, ⟨"A", Patch.textName, .scalar (.text "twice")⟩,
      ⟨"C", "fill", .scalar (.text "black")⟩] := rfl

theorem nested_definite :
    ∀ p ∈ Datum.patches nestedPatches, p.Definite nested identityAttribute := by
  have scalar : ∀ p ∈ Datum.patches nestedPatches, ∃ v, p.value = .scalar v := by
    simp [patches_nestedPatches]
  have writer : ∀ p ∈ Datum.patches nestedPatches, p.isReorder = false := by decide +kernel
  have spares : ∀ p ∈ Datum.patches nestedPatches, p.Spares identityAttribute := by
    unfold Patch.Spares
    decide +kernel
  have named : ∀ p ∈ Datum.patches nestedPatches, p.id ≠ "" := by decide +kernel
  have unique : ∀ p ∈ Datum.patches nestedPatches, ∀ x ∈ nested.handles, ∀ y ∈ nested.handles,
      nested.Carries identityAttribute p.id x → nested.Carries identityAttribute p.id y → x = y := by
    decide +kernel
  exact fun p hp => ⟨scalar p hp, writer p hp, spares p hp, named p hp, unique p hp⟩

theorem nested_last : nested.Reachable ∧
    (nested.patchAll identityAttribute nestedPatches).1.handles = [0, 1, 3] ∧
    (nested.patchAll identityAttribute nestedPatches).1.get? 3 "fill" = some "black" ∧
    (nested.patchAll identityAttribute nestedPatches).1.get? 3 "opacity" = some "1" ∧
    ((nested.patchAll identityAttribute nestedPatches).1.element 1).text = "twice" ∧
    (nested.patchAll identityAttribute nestedPatches).1.children 1 = [] := by
  have reachable : nested.Reachable := .tree _ (by decide)
  have left : (nested.patchAll identityAttribute nestedPatches).1.handles = [0, 1, 3] := by decide +kernel
  obtain ⟨_, values, _, _⟩ := patchAll_last reachable nested_definite (e := 3) (by rw [left]; decide)
  obtain ⟨_, _, text, children⟩ := patchAll_last reachable nested_definite (e := 1) (by rw [left]; decide)
  refine ⟨reachable, left, ?_, ?_, ?_, ?_⟩
  · rw [values]
    decide +kernel
  · rw [values]
    decide +kernel
  · rw [text]
    decide +kernel
  · rw [children]
    decide +kernel

end Document

end SvgForm
