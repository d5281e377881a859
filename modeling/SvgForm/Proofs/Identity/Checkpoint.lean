import SvgForm.Proofs.Identity.Ensure
import SvgForm.Proofs.Identity.Renewal
import SvgForm.Proofs.Patch.Replay
/-! # Checkpoints

A document with identities written into it is patched, and identities are written again. Ids come first in
both passes, and so elements that share an id are numbered anew in their new order; and elements that become
eligible claim their base keys before identities that were given earlier, where they stand before them.
-/

namespace SvgForm.Document

open UniqueKeys

variable {d edited : Document} {holder : String} {h x : Handle}

/-- The document after identities are written, patches applied, and identities written again. -/
def checkpoint (d : Document) (holder : String) (raws : List Datum) : Document :=
  (d.replay holder raws).1.ensureIdentities holder

/-- Every element that has an identity and is still in the tree carries it. -/
def KeepsIdentities (d later : Document) (holder : String) : Prop :=
  ∀ entry ∈ d.identities holder, entry.1 ∈ later.handles → later.get? entry.1 holder = some entry.2

instance (d later : Document) (holder : String) : Decidable (KeepsIdentities d later holder) :=
  inferInstanceAs (Decidable (∀ entry ∈ _, _))

/-- Every element that is eligible as it was before gets the same form of its base key as identity. -/
def RenewsIdentities (d edited : Document) (holder : String) : Prop :=
  ∀ before e after, edited.eligible = before ++ e :: after → e ∈ d.eligible →
    ∀ n, 1 ≤ n → d.identityOf holder e = disambiguate (edited.baseKey holder e) n →
      Renews d.eligible edited.eligible before (edited.baseKey holder) (d.identityOf holder) e n

/-! ## The second pass -/

/-- What the second pass starts from: the base key of an element is the one it had, or the identity it was
given in the first pass. -/
theorem baseKey_edited (hd : d.WellFormed) (same : SameLookups holder (d.ensureIdentities holder) edited)
    (hx : x ∈ d.eligible) : edited.baseKey holder x = d.baseKey holder x ∨
      edited.baseKey holder x = d.identityOf holder x := by
  have key : edited.baseKey holder x = (d.ensureIdentities holder).baseKey holder x :=
    baseKey_congr (same.tag x) (same.get? x "id" (by simp [lookupNames]))
      (same.get? x holder (by simp [lookupNames]))
  rw [key]
  exact baseKey_ensureIdentities hd hx

theorem get?_holder_edited (hd : d.WellFormed)
    (same : SameLookups holder (d.ensureIdentities holder) edited) (hx : x ∈ d.eligible) :
    edited.get? x holder = some (d.identityOf holder x) := by
  rw [same.get? x holder (by simp [lookupNames]), get?_holder_ensureIdentities hd hx]

/-- Only elements that are eligible in both passes can lose their identities. -/
theorem keepsIdentities_iff (hd : d.WellFormed)
    (same : SameLookups holder (d.ensureIdentities holder) edited) :
    KeepsIdentities d (edited.ensureIdentities holder) holder ↔
      ∀ x ∈ edited.eligible, x ∈ d.eligible → edited.identityOf holder x = d.identityOf holder x := by
  have attached := (sameContent_ensureIdentities edited holder).handles
  constructor
  · intro keeps x hx old
    have := keeps (x, d.identityOf holder x) (hd.mem_identities_iff.mpr ⟨old, rfl⟩)
      (by rw [attached]; exact eligible_subset hx)
    rw [get?_holder_ensureIdentities same.wellFormed hx] at this
    exact Option.some.inj this
  · rintro kept ⟨x, identity⟩ mem _
    obtain ⟨old, rfl⟩ := hd.mem_identities_iff.mp mem
    rw [get?_ensureIdentities same.wellFormed]
    split
    case isTrue both => rw [kept x both.1 old]
    case isFalse => exact get?_holder_edited hd same old

theorem keepsIdentities_iff_renews (hd : d.WellFormed)
    (same : SameLookups holder (d.ensureIdentities holder) edited) :
    KeepsIdentities d (edited.ensureIdentities holder) holder ↔ RenewsIdentities d edited holder := by
  rw [keepsIdentities_iff hd same]
  exact (hd.assigns_identityOf holder).renamed_iff (same.wellFormed.assigns_identityOf holder)
    fun x _ old => baseKey_edited hd same old

/-! ## Finding elements by their identities -/

theorem find?_of_skipped {α : Type} {p : α → Bool} {before after : List α} {a : α}
    (skipped : ∀ y ∈ before, p y = false) :
    (before ++ a :: after).find? p = (a :: after).find? p := by
  rw [List.find?_append, List.find?_eq_none.mpr fun y hy => by simp [skipped y hy], Option.none_or]

theorem find?_cons_eq_iff {α : Type} {p q : α → Bool} {a : α} {after : List α}
    (accepted : p a = true ∨ q a = true) :
    (a :: after).find? p = (a :: after).find? q ↔ p a = true ∧ q a = true := by
  constructor
  · intro same
    rcases accepted with accepted | accepted
    · rw [List.find?_cons_of_pos accepted] at same
      exact ⟨accepted, List.find?_some same.symm⟩
    · rw [List.find?_cons_of_pos accepted] at same
      exact ⟨List.find?_some same, accepted⟩
  · rintro ⟨acceptsP, acceptsQ⟩
    rw [List.find?_cons_of_pos acceptsP, List.find?_cons_of_pos acceptsQ]

/-- Two searches find the same just if whatever only one of them accepts stands after something that both
accept. -/
theorem find?_eq_iff {α : Type} {p q : α → Bool} {l : List α} (both : ∃ e ∈ l, p e = true ∧ q e = true) :
    l.find? p = l.find? q ↔ ∀ before z after, l = before ++ z :: after → p z ≠ q z →
      ∃ y ∈ before, p y = true ∧ q y = true := by
  -- Nothing before the first element that either of the two accepts matters.
  obtain ⟨a, found⟩ : ∃ a, l.find? (fun e => p e || q e) = some a := by
    obtain ⟨e, he, hp, _⟩ := both
    exact Option.isSome_iff_exists.mp (List.find?_isSome.mpr ⟨e, he, by simp [hp]⟩)
  obtain ⟨accepted, first, rest, rfl, skipped⟩ := List.find?_eq_some_iff_append.mp found
  have skip : ∀ y ∈ first, p y = false ∧ q y = false := fun y hy => by simpa using skipped y hy
  rw [find?_of_skipped fun y hy => (skip y hy).1, find?_of_skipped fun y hy => (skip y hy).2,
    find?_cons_eq_iff (by simpa using accepted)]
  constructor
  · rintro ⟨acceptsP, acceptsQ⟩ before z after eq differs
    have ne : z ≠ a := by
      rintro rfl
      exact differs (acceptsP.trans acceptsQ.symm)
    have late : z ∉ first := fun hz => differs ((skip z hz).1.trans (skip z hz).2.symm)
    refine ⟨a, ?_, acceptsP, acceptsQ⟩
    rcases List.append_eq_append_iff.mp eq with ⟨between, rfl, tail⟩ | ⟨between, rfl, tail⟩
    · cases between with
      | nil => exact absurd (List.cons.inj tail).1.symm ne
      | cons b between =>
          rw [(List.cons.inj tail).1]
          simp
    · cases between with
      | nil => exact absurd (List.cons.inj tail).1 ne
      | cons b between => exact absurd (by simp [(List.cons.inj tail).1]) late
  · intro each
    have same : p a = q a := by
      by_contra differs
      obtain ⟨y, hy, hp, _⟩ := each first a rest rfl differs
      exact absurd (hp.symm.trans (skip y hy).1) Bool.true_eq_false.mp
    rw [same] at accepted ⊢
    simpa using accepted

/-- An identity that some element carries leads to the first element that carries it. -/
theorem locate?_eq {identity : String} (nonempty : identity ≠ "")
    (carried : ∃ e ∈ d.handles, d.get? e holder = some identity) :
    d.locate? holder identity = d.handles.find? fun h => d.get? h holder = some identity := by
  rw [locate?, find?, if_neg nonempty, lookupNames, List.findSome?_cons]
  cases found : d.handles.find? fun h => d.get? h holder = some identity with
  | some h => rfl
  | none =>
      obtain ⟨e, he, carries⟩ := carried
      have := List.find?_eq_none.mp found e he
      simp [carries] at this

/-- A new element comes to carry an identity, or ceases to, in the second pass. -/
def Switches (d edited : Document) (holder identity : String) (z : Handle) : Prop :=
  z ∉ d.eligible ∧ ¬ (edited.get? z holder = some identity ↔
    (edited.ensureIdentities holder).get? z holder = some identity)

/-- An old element carries after the second pass what it carried before it. -/
theorem get?_holder_of_keeps {identity : String} (hd : d.WellFormed)
    (same : SameLookups holder (d.ensureIdentities holder) edited)
    (keeps : KeepsIdentities d (edited.ensureIdentities holder) holder) (old : x ∈ d.eligible)
    (attached : x ∈ edited.handles) : edited.get? x holder = some identity ↔
      (edited.ensureIdentities holder).get? x holder = some identity := by
  have kept := keeps (x, d.identityOf holder x) (hd.mem_identities_iff.mpr ⟨old, rfl⟩)
    (by rwa [(sameContent_ensureIdentities edited holder).handles])
  rw [kept, get?_holder_edited hd same old]

theorem locate?_iff_switches {e : Handle} {identity : String} (hd : d.WellFormed)
    (same : SameLookups holder (d.ensureIdentities holder) edited)
    (keeps : KeepsIdentities d (edited.ensureIdentities holder) holder)
    (mem : (e, identity) ∈ d.identities holder) (attached : e ∈ edited.handles) :
    (edited.ensureIdentities holder).locate? holder identity = edited.locate? holder identity ↔
      ∀ before z after, edited.handles = before ++ z :: after → Switches d edited holder identity z →
        ∃ y ∈ before, edited.get? y holder = some identity ∧
          (edited.ensureIdentities holder).get? y holder = some identity := by
  obtain ⟨old, named⟩ := hd.mem_identities_iff.mp mem
  have nonempty : identity ≠ "" := named ▸ identityOf_ne_empty hd old
  have carried : edited.get? e holder = some identity := named ▸ get?_holder_edited hd same old
  have carries := (get?_holder_of_keeps hd same keeps old attached).mp carried
  have handles := (sameContent_ensureIdentities edited holder).handles
  rw [locate?_eq nonempty ⟨e, attached, carried⟩,
    locate?_eq nonempty ⟨e, by rwa [handles], carries⟩, handles, eq_comm,
    find?_eq_iff ⟨e, attached, by simpa using carried, by simpa using carries⟩]
  refine forall_congr' fun before => forall_congr' fun z => forall_congr' fun after => ?_
  refine imp_congr_right fun split => ?_
  have hz : z ∈ edited.handles := by rw [split]; simp
  have switches : (decide (edited.get? z holder = some identity) ≠
      decide ((edited.ensureIdentities holder).get? z holder = some identity)) ↔
        Switches d edited holder identity z := by
    rw [ne_eq, decide_eq_decide, Switches, iff_and_self]
    intro differs old
    exact differs (get?_holder_of_keeps hd same keeps old hz)
  simp only [switches, decide_eq_true_eq]

/-- Identities survive a checkpoint just if they are renewed, where no patch changes the attributes by which
elements are found. And if they survive, an identity leads to the same element with the checkpoint as
without it just if no new element comes to carry it, or ceases to, before the first that carries it all
along. -/
theorem checkpoint_iff {raws : List Datum} (hd : d.Reachable) (holder : String)
    (spares : ∀ raw ∈ raws, ∀ p, raw.toPatch = .ok p → p.Spares holder) :
    (KeepsIdentities d (d.checkpoint holder raws) holder ↔
      RenewsIdentities d (d.replay holder raws).1 holder) ∧
    (KeepsIdentities d (d.checkpoint holder raws) holder → ∀ e identity,
      (e, identity) ∈ d.identities holder → e ∈ (d.replay holder raws).1.handles →
      ((d.checkpoint holder raws).locate? holder identity =
          (d.replay holder raws).1.locate? holder identity ↔
        ∀ before z after, (d.replay holder raws).1.handles = before ++ z :: after →
          Switches d (d.replay holder raws).1 holder identity z →
          ∃ y ∈ before, (d.replay holder raws).1.get? y holder = some identity ∧
            (d.checkpoint holder raws).get? y holder = some identity)) := by
  have hwf := hd.wellFormed
  have ensured := (sameContent_ensureIdentities d holder).wellFormed hwf
  have same : SameLookups holder (d.ensureIdentities holder) (d.replay holder raws).1 :=
    sameLookups_patchFrom ensured spares 0
  exact ⟨keepsIdentities_iff_renews hwf same,
    fun keeps e identity mem attached => locate?_iff_switches hwf same keeps mem attached⟩

/-- A patch that sets the text of the element with this identity or id. -/
def textPatch (target text : String) : Datum :=
  .record [("id", .value (.text target)), ("attribute", .value (.text Patch.textName)),
    ("value", .value (.text text))]

/-- A patch that moves an element before another. -/
def movePatch (target before : String) : Datum :=
  .record [("id", .value (.text target)), ("attribute", .value (.text Patch.reorderName)),
    ("value", .record [("before_id", .value (.text before))])]

theorem toPatch_movePatch (target before : String) : ∃ p, (movePatch target before).toPatch = .ok p ∧
    p.Spares holder :=
  ⟨_, rfl, .inr (.inl rfl)⟩

/-- Two elements with one id. -/
def twins : Document :=
  ofTree (.node { name := "svg" } (.ofRoots [rectangle [("id", "x")], rectangle [("id", "x")]]) .nil)

/-- A text that is a placeholder. -/
def placeholder (attributes : List (String × String)) : Xml.Element :=
  { name := "text", attributes, text := "Test document" }

/-- A group that is eligible, after one whose text is that of a placeholder. -/
def groups : Document :=
  ofTree (.node { name := "svg" }
    (.node { name := "g" } (.ofRoots [placeholder [("id", "A")]])
      (.node { name := "g" } (.ofRoots [rectangle []]) .nil)) .nil)

/-- A placeholder with an identity it was given before, which is now that of an element after it. -/
def leftover : Document :=
  ofTree (.node { name := "svg" } (.ofRoots [placeholder [("id", "t"), (identityAttribute, "x")],
    rectangle [("id", "x")]]) .nil)

/-- Identities do not survive a checkpoint where elements with one id change places, nor where an element
becomes eligible before another with the same base key. Where they survive, a placeholder that becomes
eligible may lose the identity by which it was found. -/
theorem checkpoint_loses_identities :
    ¬ (∀ d : Document, d.Reachable → ∀ holder raws,
        (∀ raw ∈ raws, ∃ p, Datum.toPatch raw = .ok p ∧ p.Spares holder) →
        KeepsIdentities d (d.checkpoint holder raws) holder) ∧
    ¬ KeepsIdentities twins (twins.checkpoint identityAttribute [movePatch "x_2" "x"]) identityAttribute ∧
    ¬ KeepsIdentities groups (groups.checkpoint identityAttribute [textPatch "A" "Jane"])
      identityAttribute ∧
    (KeepsIdentities leftover (leftover.checkpoint identityAttribute [textPatch "t" "Jane"])
        identityAttribute ∧
      (leftover.replay identityAttribute [textPatch "t" "Jane"]).1.locate? identityAttribute "x" = some 1 ∧
      (leftover.checkpoint identityAttribute [textPatch "t" "Jane"]).locate? identityAttribute "x" =
        some 2) := by
  have swapped : ¬ KeepsIdentities twins (twins.checkpoint identityAttribute [movePatch "x_2" "x"])
      identityAttribute := by decide
  refine ⟨fun claim => swapped (claim twins (.tree _ (by decide)) _ _ ?_), swapped, by decide +kernel,
    by decide +kernel⟩
  intro raw mem
  obtain rfl := List.mem_singleton.mp mem
  exact toPatch_movePatch "x_2" "x"

/-- A text that becomes eligible takes the place of an element with its id that leaves the tree. -/
def relay : Document :=
  ofTree (.node { name := "svg" }
    (.node { name := "g", attributes := [("id", "a")] } (.ofRoots [rectangle [("id", "x")]])
      (.ofRoots [placeholder [("id", "x")], rectangle [("id", "x")]])) .nil)

/-- The group loses what it contains, and the text is no placeholder any more. -/
def relayPatches : List Datum :=
  [textPatch "a" "b", textPatch "x" "c"]

theorem relay_checkpoint : relay.Reachable ∧
    relay.identities identityAttribute = [(1, "a"), (2, "x"), (4, "x_2")] ∧
    (relay.checkpoint identityAttribute relayPatches).identities identityAttribute =
      [(1, "a"), (3, "x"), (4, "x_2")] ∧
    RenewsIdentities relay (relay.replay identityAttribute relayPatches).1 identityAttribute ∧
    ∀ before z after, (relay.replay identityAttribute relayPatches).1.handles = before ++ z :: after →
      Switches relay (relay.replay identityAttribute relayPatches).1 identityAttribute "x_2" z →
        ∃ y ∈ before, (relay.replay identityAttribute relayPatches).1.get? y identityAttribute = some "x_2" ∧
          (relay.checkpoint identityAttribute relayPatches).get? y identityAttribute = some "x_2" := by
  have reachable : relay.Reachable := .tree _ (by decide)
  have spares : ∀ raw ∈ relayPatches, ∀ p, raw.toPatch = .ok p → p.Spares identityAttribute := by
    intro raw mem p read
    rcases List.mem_cons.mp mem with rfl | mem
    · obtain rfl := Except.ok.inj read
      exact .inl rfl
    · obtain rfl := List.mem_singleton.mp mem
      obtain rfl := Except.ok.inj read
      exact .inl rfl
  have keeps : KeepsIdentities relay (relay.checkpoint identityAttribute relayPatches) identityAttribute := by
    decide +kernel
  obtain ⟨survival, address⟩ := checkpoint_iff reachable identityAttribute spares
  refine ⟨reachable, by decide +kernel, by decide +kernel, survival.mp keeps, ?_⟩
  exact (address keeps 4 "x_2" (by decide +kernel) (by decide +kernel)).mp (by decide +kernel)

end SvgForm.Document
