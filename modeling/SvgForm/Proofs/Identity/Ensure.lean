import Mathlib.Data.List.Basic
import SvgForm.Proofs.Document.Content
import SvgForm.Proofs.Identity.Keys
/-! # Writing identities

The identities of a document are names for its eligible elements, given by claims of their base keys in
document order. Written into the document they become base keys themselves, wherever no id comes first, and
that leaves the names as they are.
-/

namespace SvgForm

/-! ## Identities as names -/

namespace UniqueKeys.Assigns

variable {α : Type} {l : List α} {key name other : α → String}

theorem congr (names : Assigns l key name) (same : ∀ x ∈ l, other x = name x) : Assigns l key other := by
  intro before x after eq
  obtain ⟨n, named, first⟩ := names before x after eq
  have earlier : before.map other = before.map name :=
    List.map_congr_left fun y hy => same y (by rw [eq]; exact List.mem_append_left _ hy)
  exact ⟨n, by rw [same x (by rw [eq]; simp), named], by rwa [earlier]⟩

theorem ne_empty (names : Assigns l key name)
    (some_key : ∀ x ∈ l, key x ≠ "") {x : α} (hx : x ∈ l) : name x ≠ "" := by
  obtain ⟨_, _, n, _, named, _⟩ := names.spec hx
  rw [named]
  exact disambiguate_ne_empty (some_key x hx) n

end UniqueKeys.Assigns

namespace Document

open UniqueKeys

variable {d d' : Document} {holder : String} {h x : Handle}

theorem eligible_subset : d.eligible ⊆ d.handles :=
  List.filter_subset_self _

theorem WellFormed.eligible_nodup (hd : d.WellFormed) : d.eligible.Nodup :=
  hd.handles_nodup.filter _

theorem WellFormed.lt_size_of_eligible (hd : d.WellFormed) (hx : x ∈ d.eligible) :
    x < d.elements.size :=
  hd.lt_size (eligible_subset hx)

/-- The identity of an eligible element. -/
def identityOf (d : Document) (holder : String) (h : Handle) : String :=
  ((d.identities holder).lookup h).getD ""

theorem WellFormed.assigns_identityOf (hd : d.WellFormed) (holder : String) :
    Assigns d.eligible (d.baseKey holder) (d.identityOf holder) := by
  obtain ⟨name, names⟩ := exists_assigns hd.eligible_nodup (d.baseKey holder)
  have zipped : (d.eligible.map id).zip (d.eligible.map name) = d.eligible.map fun x => (x, name x) :=
    List.zip_map'
  rw [List.map_id, ← claimAll_map hd.eligible_nodup names] at zipped
  refine names.congr fun x hx => ?_
  rw [identityOf, identities, zipped, List.lookup_graph name hx, Option.getD_some]

theorem WellFormed.identities_eq (hd : d.WellFormed) (holder : String) :
    d.identities holder = d.eligible.map fun x => (x, d.identityOf holder x) := by
  have zipped : (d.eligible.map id).zip (d.eligible.map (d.identityOf holder)) =
      d.eligible.map fun x => (x, d.identityOf holder x) := List.zip_map'
  rw [List.map_id, ← claimAll_map hd.eligible_nodup (hd.assigns_identityOf holder)] at zipped
  exact zipped

theorem WellFormed.mem_identities_iff (hd : d.WellFormed) {identity : String} :
    (x, identity) ∈ d.identities holder ↔ x ∈ d.eligible ∧ d.identityOf holder x = identity := by
  simp [hd.identities_eq holder]

theorem lookup_identities (hd : d.WellFormed) (hx : x ∈ d.eligible) :
    (d.identities holder).lookup x = some (d.identityOf holder x) := by
  rw [hd.identities_eq holder]
  exact List.lookup_graph _ hx

/-- An identity leads to its element only. -/
theorem find?_identities (hd : d.WellFormed) (hx : x ∈ d.eligible) :
    (d.identities holder).find? (·.2 = d.identityOf holder x) = some (x, d.identityOf holder x) := by
  rw [hd.identities_eq holder]
  cases found : (d.eligible.map fun y => (y, d.identityOf holder y)).find?
      (·.2 = d.identityOf holder x) with
  | none =>
      have := List.find?_eq_none.mp found _ (List.mem_map_of_mem hx)
      simp at this
  | some entry =>
      obtain ⟨y, hy, rfl⟩ := List.mem_map.mp (List.mem_of_find?_eq_some found)
      have same : d.identityOf holder y = d.identityOf holder x := by simpa using List.find?_some found
      rw [(hd.assigns_identityOf holder).inj hy hx same]

theorem filter_nonempty {s : String} {found : Option String} (eq : found = some s) (nonempty : s ≠ "") :
    found.filter (· ≠ "") = some s := by
  rw [eq, Option.filter_some_pos (by simpa using nonempty)]

/-- The id comes first, then the identity that was given before. -/
theorem baseKey_of_id {id : String} (found : (d.get? h "id").filter (· ≠ "") = some id) :
    d.baseKey holder h = id := by
  rw [baseKey, found]
  rfl

theorem baseKey_of_identity {identity : String} (without : (d.get? h "id").filter (· ≠ "") = none)
    (found : (d.get? h holder).filter (· ≠ "") = some identity) : d.baseKey holder h = identity := by
  rw [baseKey, without, found]
  rfl

theorem baseKey_of_tag (without : (d.get? h "id").filter (· ≠ "") = none)
    (unmarked : (d.get? h holder).filter (· ≠ "") = none) :
    d.baseKey holder h = "el-" ++ lowered (d.tag h) := by
  rw [baseKey, without, unmarked]
  rfl

theorem baseKey_congr (tag : d'.tag h = d.tag h) (id : d'.get? h "id" = d.get? h "id")
    (identity : d'.get? h holder = d.get? h holder) : d'.baseKey holder h = d.baseKey holder h := by
  rw [baseKey, baseKey, tag, id, identity]

theorem baseKey_ne_empty (d : Document) (holder : String) (h : Handle) : d.baseKey holder h ≠ "" := by
  cases id : (d.get? h "id").filter (· ≠ "") with
  | some s =>
      rw [baseKey_of_id id]
      simpa using (Option.filter_eq_some_iff.mp id).2
  | none =>
      cases identity : (d.get? h holder).filter (· ≠ "") with
      | some s =>
          rw [baseKey_of_identity id identity]
          simpa using (Option.filter_eq_some_iff.mp identity).2
      | none =>
          rw [baseKey_of_tag id identity]
          intro empty
          have := congrArg String.toList empty
          simp at this

theorem identityOf_ne_empty (hd : d.WellFormed) (hx : x ∈ d.eligible) : d.identityOf holder x ≠ "" :=
  (hd.assigns_identityOf holder).ne_empty (fun _ _ => d.baseKey_ne_empty holder _) hx

/-! ## Writing an attribute of many elements -/

/-- Writes an attribute of many elements. -/
def setEach (d : Document) (holder : String) (l : List (Handle × String)) : Document :=
  l.foldl (fun d (h, value) => d.set h holder value) d

theorem sameContent_setEach (d : Document) (holder : String) (l : List (Handle × String)) :
    SameContent d (d.setEach holder l) := by
  induction l generalizing d with
  | nil => exact .refl d
  | cons entry l ih => exact (SameContent.set d entry.1 holder entry.2).trans (ih _)

theorem get?_setEach {l : List Handle} (hl : ∀ h ∈ l, h < d.elements.size) (name : Handle → String)
    (holder other : String) :
    (d.setEach holder (l.map fun h => (h, name h))).get? x other =
      if x ∈ l ∧ Xml.qualify other = Xml.qualify holder then some (name x) else d.get? x other := by
  induction l generalizing d with
  | nil => simp [setEach]
  | cons h l ih =>
      have size := (SameContent.set d h holder (name h)).size
      have rest := ih (d := d.set h holder (name h)) fun k hk => by
        rw [size]
        exact hl k (List.mem_cons_of_mem h hk)
      rw [get?_set (hl h List.mem_cons_self)] at rest
      refine Eq.trans rest ?_
      by_cases asked : Xml.qualify other = Xml.qualify holder
      · by_cases later : x ∈ l
        · simp [later, asked]
        · by_cases here : x = h
          · simp [here, asked]
          · simp [later, here]
      · simp [asked]

theorem setEach_of_get? {l : List (Handle × String)}
    (already : ∀ entry ∈ l, d.get? entry.1 holder = some entry.2) : d.setEach holder l = d := by
  induction l with
  | nil => rfl
  | cons entry l ih =>
      have first : d.set entry.1 holder entry.2 = d := set_of_get? (already entry List.mem_cons_self)
      change (d.set entry.1 holder entry.2).setEach holder l = d
      rw [first]
      exact ih fun e he => already e (List.mem_cons_of_mem entry he)

/-! ## Identities that are written -/

theorem sameContent_ensureIdentities (d : Document) (holder : String) :
    SameContent d (d.ensureIdentities holder) :=
  sameContent_setEach d holder _

theorem get?_ensureIdentities (hd : d.WellFormed) (holder : String) (x : Handle) (other : String) :
    (d.ensureIdentities holder).get? x other =
      if x ∈ d.eligible ∧ Xml.qualify other = Xml.qualify holder then some (d.identityOf holder x)
      else d.get? x other := by
  rw [ensureIdentities, hd.identities_eq holder]
  exact get?_setEach (fun h hh => hd.lt_size_of_eligible hh) (d.identityOf holder) holder other

theorem Reachable.setEach {l : List (Handle × String)} (hd : d.Reachable)
    (hl : ∀ entry ∈ l, entry.1 < d.elements.size) : (d.setEach holder l).Reachable := by
  induction l generalizing d with
  | nil => exact hd
  | cons entry l ih =>
      obtain ⟨first, rest⟩ := List.forall_mem_cons.mp hl
      refine ih (hd.set first holder entry.2) fun e he => ?_
      rw [(SameContent.set d entry.1 holder entry.2).size]
      exact rest e he

theorem Reachable.ensureIdentities (hd : d.Reachable) (holder : String) :
    (d.ensureIdentities holder).Reachable := by
  refine hd.setEach fun entry mem => ?_
  rw [hd.wellFormed.identities_eq holder] at mem
  obtain ⟨x, hx, rfl⟩ := List.mem_map.mp mem
  exact hd.wellFormed.lt_size_of_eligible hx

/-- The element has its identity as the value of the attribute. -/
theorem get?_holder_ensureIdentities (hd : d.WellFormed) (hx : x ∈ d.eligible) :
    (d.ensureIdentities holder).get? x holder = some (d.identityOf holder x) := by
  rw [get?_ensureIdentities hd, if_pos ⟨hx, rfl⟩]

/-- An element with an id keeps its base key, unless ids are where identities are written. Every other
one has its identity as base key. -/
theorem baseKey_ensureIdentities (hd : d.WellFormed) (hx : x ∈ d.eligible) :
    (d.ensureIdentities holder).baseKey holder x = d.baseKey holder x ∨
      (d.ensureIdentities holder).baseKey holder x = d.identityOf holder x := by
  have nonempty : d.identityOf holder x ≠ "" := identityOf_ne_empty hd hx
  have written : (d.ensureIdentities holder).get? x holder = some (d.identityOf holder x) :=
    get?_holder_ensureIdentities hd hx
  have id := get?_ensureIdentities hd holder x "id"
  by_cases ofId : Xml.qualify "id" = Xml.qualify holder
  · rw [if_pos ⟨hx, ofId⟩] at id
    exact .inr (baseKey_of_id (filter_nonempty id nonempty))
  · rw [if_neg fun both => ofId both.2] at id
    cases found : (d.get? x "id").filter (· ≠ "") with
    | some s =>
        left
        rw [baseKey_of_id found, baseKey_of_id (by rw [id, found])]
    | none =>
        right
        exact baseKey_of_identity (by rw [id, found]) (filter_nonempty written nonempty)

/-- The identities are names for the document into which they are written, too. -/
theorem assigns_ensureIdentities (hd : d.WellFormed) (holder : String) :
    Assigns (d.ensureIdentities holder).eligible ((d.ensureIdentities holder).baseKey holder)
      (d.identityOf holder) := by
  rw [(sameContent_ensureIdentities d holder).eligible]
  exact (hd.assigns_identityOf holder).settle fun x hx => baseKey_ensureIdentities hd hx

theorem identities_ensureIdentities (hd : d.WellFormed) (holder : String) :
    (d.ensureIdentities holder).identities holder = d.identities holder := by
  have same := sameContent_ensureIdentities d holder
  have again := same.wellFormed hd
  rw [again.identities_eq holder, hd.identities_eq holder, same.eligible]
  refine List.map_congr_left fun x hx => ?_
  have unchanged := (again.assigns_identityOf holder).unique (assigns_ensureIdentities hd holder) x
    (by rwa [same.eligible])
  rw [unchanged]

/-- Writing identities again gives the same identities, which are there already; so does asking for them
after they were written. -/
theorem ensureIdentities_idempotent (hd : d.Reachable) (holder : String) :
    (d.ensureIdentities holder).identities holder = d.identities holder ∧
      (d.ensureIdentities holder).ensureIdentities holder = d.ensureIdentities holder := by
  have again := identities_ensureIdentities hd.wellFormed holder
  refine ⟨again, ?_⟩
  rw [ensureIdentities, again, hd.wellFormed.identities_eq holder]
  refine setEach_of_get? fun entry mem => ?_
  obtain ⟨x, hx, rfl⟩ := List.mem_map.mp mem
  exact get?_holder_ensureIdentities hd.wellFormed hx

def rectangle (attributes : List (String × String)) : Xml.Element :=
  { name := "rect", attributes }

/-- Rectangles with an id that occurs twice, an id that looks like a numbered one, no id, and an identity
they were given before. -/
def rectangles : Document :=
  ofTree (.node { name := "svg" } (.ofRoots [rectangle [("id", "x")], rectangle [("id", "x")],
    rectangle [("id", "x_2")], rectangle [], rectangle [(identityAttribute, "el-rect")]]) .nil)

theorem rectangles_idempotent : rectangles.Reachable ∧
    rectangles.identities identityAttribute =
      [(1, "x"), (2, "x_3"), (3, "x_2"), (4, "el-rect"), (5, "el-rect_2")] ∧
    (rectangles.ensureIdentities identityAttribute).identities identityAttribute =
      rectangles.identities identityAttribute ∧
    (rectangles.ensureIdentities identityAttribute).ensureIdentities identityAttribute =
      rectangles.ensureIdentities identityAttribute :=
  have reachable : rectangles.Reachable := .tree _ (by decide)
  ⟨reachable, by decide, ensureIdentities_idempotent reachable identityAttribute⟩

end Document

end SvgForm
