import SvgForm.Font.Inherited
import SvgForm.Proofs.Document.Session
import SvgForm.Proofs.Style.Property
/-! # Inherited fonts

The search for a family and a size on the way up from an element finds each as if it alone were sought. So an
element takes each from itself or else from its parent, and the root takes the standard one.
-/

namespace SvgForm

namespace Document

variable {d : Document} {h : Handle} {name v : String} {α : Type} {read : String → Option α}

/-! ## What an element says -/

/-- What an element's style says about a property, unless that is empty. -/
def styled? (d : Document) (h : Handle) (name : String) : Option String :=
  (Style.lookup? (d.styleText h).toList name).filter (· ≠ "")

/-- What an element says about a property that counts: what its style says, or, where that says nothing, the
attribute. -/
def Declares (d : Document) (h : Handle) (name v : String) : Prop :=
  d.styled? h name = some v ∨ d.styled? h name = none ∧ d.get? h name = some v

/-- What an element says about a property, read as a value. -/
def Gives (d : Document) (h : Handle) (name : String) (read : String → Option α) (a : α) : Prop :=
  ∃ v, d.Declares h name v ∧ read v = some a

theorem ownProperty?_eq_some_iff : d.ownProperty? h name = some v ↔ d.Declares h name v := by
  have own : d.ownProperty? h name = (d.styled? h name).or (d.get? h name) := rfl
  rw [own, Option.or_eq_some_iff, Declares]

theorem bind_ownProperty?_eq_some_iff {a : α} :
    (d.ownProperty? h name).bind read = some a ↔ d.Gives h name read a := by
  simp only [Option.bind_eq_some_iff, ownProperty?_eq_some_iff, Gives]

theorem forall_not_gives_iff : (∀ a, ¬ d.Gives h name read a) ↔ (d.ownProperty? h name).bind read = none := by
  simp only [Option.eq_none_iff_forall_ne_some, ne_eq, bind_ownProperty?_eq_some_iff]

/-- A value that an element takes from what it says itself, or else from elsewhere. -/
def Takes (d : Document) (h : Handle) (name : String) (read : String → Option α) (value elsewhere : α) : Prop :=
  (∀ a, d.Gives h name read a → value = a) ∧ ((∀ a, ¬ d.Gives h name read a) → value = elsewhere)

theorem takes_getD (d : Document) (h : Handle) (name : String) (read : String → Option α) (elsewhere : α) :
    d.Takes h name read (((d.ownProperty? h name).bind read).getD elsewhere) elsewhere := by
  constructor
  · intro a given
    rw [bind_ownProperty?_eq_some_iff.mpr given, Option.getD_some]
  · intro nothing
    rw [forall_not_gives_iff.mp nothing, Option.getD_none]

/-! ## The search -/

/-- What is found along a row is what was found before it, or else the first that is found in it. The search ends
early only where there is nothing more to find. -/
theorem seekFont_eq (d : Document) (row : List Handle) (family : Option String) (size : Option Float) :
    d.seekFont family size row = (family.or (row.findSome? d.ownFamily?), size.or (row.findSome? d.ownSize?)) := by
  induction row generalizing family size with
  | nil => simp [seekFont]
  | cons h row ih =>
      have first {α : Type} (own : Handle → Option α) : (h :: row).findSome? own = (own h).or (row.findSome? own) := by
        rw [List.findSome?_cons]
        cases own h <;> rfl
      rw [first, first, ← Option.or_assoc, ← Option.or_assoc, seekFont]
      split
      case isTrue both => rw [Option.or_of_isSome both.1, Option.or_of_isSome both.2]
      case isFalse => exact ih _ _

theorem fontAlong_cons (d : Document) (h : Handle) (row : List Handle) :
    (d.fontAlong (h :: row)).family = (d.ownFamily? h).getD (d.fontAlong row).family ∧
      (d.fontAlong (h :: row)).size = (d.ownSize? h).getD (d.fontAlong row).size := by
  simp only [fontAlong, seekFont_eq, Option.none_or, List.findSome?_cons]
  constructor
  · cases d.ownFamily? h <;> rfl
  · cases d.ownSize? h <;> rfl

theorem takes_fontAlong (d : Document) (h : Handle) (row : List Handle) :
    d.Takes h "font-family" Font.family? (d.fontAlong (h :: row)).family (d.fontAlong row).family ∧
      d.Takes h "font-size" Font.size? (d.fontAlong (h :: row)).size (d.fontAlong row).size := by
  rw [(d.fontAlong_cons h row).1, (d.fontAlong_cons h row).2]
  exact ⟨d.takes_getD h _ _ _, d.takes_getD h _ _ _⟩

end Document

namespace Session

variable {s : Session} {h p : Handle}

theorem Sound.font (hs : s.Sound) (h : Handle) : s.font h = s.document.font h := by
  rw [Session.font, hs.ancestors, Document.font]

theorem Sound.ancestors_of_parent? (hs : s.Sound) (above : s.parent? h = some p) :
    s.ancestors h = p :: s.ancestors p := by
  rw [hs.ancestors h, hs.ancestors p]
  exact (Forest.Climbs.up above (hs.climbs p)).eq (hs.climbs h) fun _ _ => rfl

theorem Sound.ancestors_root (hs : s.Sound) : s.ancestors Document.root = [] := by
  have top := Forest.Climbs.top (hs.isTree.orphan Document.root (.inl rfl))
  rw [hs.ancestors Document.root]
  exact top.eq (hs.climbs Document.root) fun _ _ => rfl

/-- An element takes its family and its size each from what it says itself, or else from its parent; the root takes
from the standard font what it does not say. -/
theorem run_font {d : Document} (hd : d.Reachable) (calls : List Call) :
    let s := (run { document := d } calls).2
    (∀ h p, s.parent? h = some p →
      s.document.Takes h "font-family" Font.family? (s.font h).family (s.font p).family ∧
        s.document.Takes h "font-size" Font.size? (s.font h).size (s.font p).size) ∧
    s.document.Takes Document.root "font-family" Font.family? (s.font Document.root).family "Arial" ∧
      s.document.Takes Document.root "font-size" Font.size? (s.font Document.root).size 16.0 := by
  intro s
  have hs : s.Sound := sound_run (sound_start hd.wellFormed) calls
  constructor
  · intro h p above
    rw [Session.font, Session.font, hs.ancestors_of_parent? above]
    exact s.document.takes_fontAlong h _
  · rw [Session.font, hs.ancestors_root]
    exact s.document.takes_fontAlong Document.root []

/-- A text in a group. The text says its size in two ways, in its style by a word. -/
def sized : Document :=
  .ofTree (.node { name := "svg" } (.node { name := "g", attributes := [("font-size", "20px")] } (.ofRoots [
    { name := "text", attributes := [("style", "font-family: 'Roboto', serif; FONT-SIZE: large"), ("font-size", "12")] }])
    .nil) .nil)

/-- Looks up a parent and makes a span in the text. -/
def spanned : Session :=
  (run { document := sized } [.parent 2, .edit (.appendChild 2 "tspan" [] "")]).2

theorem sized_font : sized.Reachable ∧ spanned.parent? 3 = some 2 ∧ spanned.parent? 2 = some 1 ∧
    spanned.parent? 1 = some Document.root ∧
    (spanned.font 3).family = (spanned.font 2).family ∧ (spanned.font 2).family = "Roboto" ∧
    (spanned.font 2).size = (spanned.font 1).size ∧ (spanned.font 1).size = 20.0 ∧
    (spanned.font 1).family = (spanned.font Document.root).family ∧
    (spanned.font Document.root).family = "Arial" := by
  have reachable : sized.Reachable := .tree _ (by decide)
  have above : spanned.parent? 3 = some 2 ∧ spanned.parent? 2 = some 1 ∧ spanned.parent? 1 = some Document.root := by
    decide
  obtain ⟨inherits, root, -⟩ := run_font reachable [.parent 2, .edit (.appendChild 2 "tspan" [] "")]
  obtain ⟨family₃, -⟩ := inherits 3 2 above.1
  obtain ⟨family₂, size₂⟩ := inherits 2 1 above.2.1
  obtain ⟨family₁, size₁⟩ := inherits 1 Document.root above.2.2
  exact ⟨reachable, above.1, above.2.1, above.2.2,
    family₃.2 (Document.forall_not_gives_iff.mpr (by decide)),
    family₂.1 "Roboto" ⟨"'Roboto', serif", .inl (by decide), by decide⟩,
    size₂.2 (Document.forall_not_gives_iff.mpr (by decide)),
    size₁.1 20.0 ⟨"20px", .inr ⟨by decide, by decide⟩, by decide +kernel⟩,
    family₁.2 (Document.forall_not_gives_iff.mpr (by decide)),
    root.2 (Document.forall_not_gives_iff.mpr (by decide))⟩

/-- A size that an attribute says does not count where the style says one that is no number. -/
theorem sized_hides : ¬ ∀ (d : Document) (h : Handle) (v : String) (size : Float), d.Reachable → h ∈ d.handles →
    d.get? h "font-size" = some v → Font.size? v = some size →
      (∀ w, d.styled? h "font-size" = some w → Font.size? w = none) → (d.font h).size = size := by
  intro counts
  have wins := counts sized 2 "12" 12.0 (.tree _ (by decide)) (by decide) (by decide) (by decide +kernel) (by
    intro w found
    have large : sized.styled? 2 "font-size" = some "large" := by decide
    obtain rfl := Option.some.inj (large.symm.trans found)
    decide)
  exact absurd wins (by decide +kernel)

end Session

end SvgForm
