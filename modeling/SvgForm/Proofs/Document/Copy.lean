import Mathlib.Data.List.Find
import SvgForm.Proofs.Document.Session
import SvgForm.Proofs.Document.Write
/-! # Copies

A copy of a document does what its source does. The two differ in elements that did not hang together with the
root when the copy was made; as long as none of these is named, every call has the same answer in both.
-/

namespace SvgForm

namespace Document

variable {d c : Document} {h x : Handle}

/-! ## Copies and their sources -/

/-- A copy stands to its source in such a way that nothing tells them apart but elements that are not known:
the trees are the same, and what is known has the same content and the same below it. -/
structure Simulates (known : Handle → Prop) (d c : Document) : Prop where
  source : d.WellFormed
  copy : c.WellFormed
  outline : c.outline = d.outline
  size : c.elements.size = d.elements.size
  element : ∀ h, known h → c.element h = d.element h
  below : ∀ h, known h → c.below h = d.below h
  closed : ∀ h, known h → ∀ x ∈ (d.below h).toList, known x
  attached : ∀ h ∈ d.handles, known h
  later : ∀ h, d.elements.size ≤ h → known h

theorem simulates_copy (hd : d.WellFormed) :
    Simulates (fun h => h ∈ d.handles ∨ d.elements.size ≤ h) d d.copy where
  source := hd
  copy := hd.copy
  outline := rfl
  size := Array.size_mapIdx
  element := by
    intro h known
    rcases known with attached | later
    · exact element_copy attached
    · simp [element, copy, later]
  below := by
    intro h known
    rcases known with attached | later
    · exact (sameBelow_copy attached).below
    · have size : d.copy.elements.size = d.elements.size := Array.size_mapIdx
      rw [below_eq_nil hd later, below_eq_nil hd.copy (by omega)]
  closed := by
    intro h known x mem
    rcases known with attached | later
    · exact .inl (below_subset attached mem)
    · rw [below_eq_nil hd later] at mem
      cases mem
  attached := fun _ => .inl
  later := fun _ => .inr

namespace Simulates

variable {known : Handle → Prop} {side : Forest.Side} {r : Handle}

theorem sameBelow (sim : Simulates known d c) (hh : known h) : SameBelow d c h where
  below := sim.below h hh
  bare := by
    intro x mem
    rcases List.mem_cons.mp mem with rfl | inside
    · rw [sim.element x hh]
    · rw [sim.element x (sim.closed h hh x inside)]

theorem mapElement (sim : Simulates known d c) (within : h < d.elements.size)
    (f : Xml.Element → Xml.Element) : Simulates known (d.mapElement h f) (c.mapElement h f) where
  source := sim.source.mapElement h f
  copy := sim.copy.mapElement h f
  outline := sim.outline
  size := by simpa [Document.mapElement] using sim.size
  element := by
    intro x hx
    rw [element_mapElement f within, element_mapElement f (by rwa [sim.size]), sim.element x hx]
  below := sim.below
  closed := sim.closed
  attached := sim.attached
  later := by
    intro x later
    exact sim.later x (by simpa [Document.mapElement] using later)

theorem setText (sim : Simulates known d c) (within : h < d.elements.size)
    (text : String) : Simulates known (d.setText h text) (c.setText h text) where
  source := sim.source.setText h text
  copy := sim.copy.setText h text
  outline := by rw [Document.setText, Document.setText, sim.outline]
  size := by simpa [Document.setText] using sim.size
  element := by
    intro x hx
    rw [element_setText within, element_setText (by rwa [sim.size]), sim.element x hx]
  below := by
    intro x hx
    rw [below_setText_eq sim.source within, below_setText_eq sim.copy (by rwa [sim.size]), sim.below x hx]
  closed := by
    intro x hx y mem
    rw [below_setText_eq sim.source within] at mem
    split at mem
    case isTrue => cases mem
    case isFalse => exact sim.closed x hx y (Forest.mem_of_mapChildren (by simp [Forest.toList]) mem)
  attached := fun x mem => sim.attached x (Forest.mem_of_mapChildren (by simp [Forest.toList]) mem)
  later := by
    intro x later
    exact sim.later x (by simpa [Document.setText] using later)

theorem appendElement (sim : Simulates known d c) (hh : known h) (within : h < d.elements.size)
    (e : Xml.Element) : Simulates known (d.appendElement h e) (c.appendElement h e) where
  source := sim.source.appendElement within e
  copy := sim.copy.appendElement (by rwa [sim.size]) e
  outline := by rw [Document.appendElement, Document.appendElement, sim.outline, sim.size]
  size := by rw [size_appendElement, size_appendElement, sim.size]
  element := by
    intro x hx
    rw [element_appendElement, element_appendElement, sim.size, sim.element x hx]
  below := by
    intro x hx
    rw [below_appendElement_eq sim.source within, below_appendElement_eq sim.copy (by rwa [sim.size]),
      sim.size, sim.below x hx, sim.below h hh]
  closed := by
    intro x hx y mem
    -- Below an element comes nothing but what came there before and the new element, known as all later ones are.
    by_cases new : y = d.elements.size
    · exact sim.later y (Nat.le_of_eq new.symm)
    · have old : ∀ row : Forest Handle, y ∈ (row.append (.ofRoots [d.elements.size])).toList →
          y ∈ row.toList := by
        intro row mem
        simpa [new] using mem
      rw [below_appendElement_eq sim.source within] at mem
      split at mem
      case isTrue => cases mem
      case isFalse =>
          split at mem
          case isTrue here => exact sim.closed h hh y (old _ mem)
          case isFalse => exact sim.closed x hx y (Forest.mem_of_mapChildren old mem)
  attached := by
    intro x mem
    by_cases new : x = d.elements.size
    · exact sim.later x (Nat.le_of_eq new.symm)
    · apply sim.attached x
      apply Forest.mem_of_mapChildren _ mem
      intro row mem
      simpa [new] using mem
  later := by
    intro x later
    rw [size_appendElement] at later
    exact sim.later x (by omega)

theorem reordered {o : Forest Handle} (sim : Simulates known d c)
    (moved : d.outline.move? side h r = some o) (wd : { d with outline := o : Document }.WellFormed)
    (wc : { c with outline := o : Document }.WellFormed) :
    Simulates known { d with outline := o } { c with outline := o } := by
  have same := Forest.perm_move? moved
  have stays : ∀ x, o.childrenOf? x = none → d.outline.childrenOf? x = none := by
    intro x absent
    rw [Forest.childrenOf?_eq_none] at absent ⊢
    rwa [← same.mem_iff]
  refine { sim with source := wd, copy := wc, outline := rfl, below := ?_, closed := ?_, attached := ?_ }
  -- The same handles stand in the outline as before, so the detached trees are asked for the same elements.
  · intro x hx
    have before := sim.below x hx
    rw [Document.below, Document.below, sim.outline] at before
    rw [Document.below, Document.below]
    cases row : o.childrenOf? x with
    | some row => rfl
    | none => rwa [stays x row] at before
  · intro x hx y mem
    rw [Document.below] at mem
    cases row : o.childrenOf? x with
    | some row' =>
        rw [row] at mem
        exact sim.attached y (same.mem_iff.mp (Forest.childrenOf?_subset row mem))
    | none =>
        apply sim.closed x hx y
        rwa [Document.below, stays x row, ← row]
  · intro x mem
    exact sim.attached x (same.mem_iff.mp mem)

theorem move?_eq_none (sim : Simulates known d c) (stuck : d.move? side h r = none) :
    c.move? side h r = none := by
  rw [← Option.not_isSome_iff_eq_none, Document.isSome_move?] at stuck ⊢
  rwa [sim.outline]

theorem move? {d' : Document} (sim : Simulates known d c) (moved : d.move? side h r = some d') :
    ∃ c', c.move? side h r = some c' ∧ Simulates known d' c' := by
  have source := sim.source.move? moved
  obtain ⟨other, o, found, rfl⟩ := Document.move?_eq_some_iff.mp moved
  have made : c.move? side h r = some { c with outline := o } := by
    rw [Document.move?_eq_some_iff, sim.outline]
    exact ⟨other, o, found, rfl⟩
  exact ⟨_, made, sim.reordered found source (sim.copy.move? made)⟩

/-! ### Questions -/

theorem mapM_congr {α β ε : Type} {f g : α → Except ε β} {l : List α} (same : ∀ a ∈ l, f a = g a) :
    l.mapM f = l.mapM g := by
  induction l with
  | nil => rfl
  | cons a l ih =>
      rw [List.mapM_cons, List.mapM_cons, same a List.mem_cons_self,
        ih fun b hb => same b (List.mem_cons_of_mem a hb)]

theorem handles (sim : Simulates known d c) : c.handles = d.handles := by
  rw [Document.handles, Document.handles, sim.outline]

theorem ancestors (sim : Simulates known d c) (h : Handle) : c.ancestors h = d.ancestors h := by
  rw [Document.ancestors, Document.ancestors, sim.outline]

theorem parent? (sim : Simulates known d c) (h : Handle) : c.parent? h = d.parent? h := by
  rw [Document.parent?, Document.parent?, sim.ancestors]

theorem isContent (sim : Simulates known d c) (hh : known h) : c.isContent h = d.isContent h := by
  apply isContent_congr (sim.sameBelow hh).tag (sim.ancestors h)
  intro x above
  exact (sim.sameBelow (sim.attached x (ancestors_subset sim.source above))).tag

theorem get? (sim : Simulates known d c) (hh : known h) (name : String) : c.get? h name = d.get? h name := by
  rw [Document.get?, Document.get?, sim.element h hh]

theorem find? (sim : Simulates known d c) (value : String) (names : List String) :
    c.find? value names = d.find? value names := by
  have each : ∀ name, (c.handles.find? fun h => c.get? h name = some value) =
      d.handles.find? fun h => d.get? h name = some value := by
    intro name
    rw [sim.handles]
    apply List.find?_congr
    intro h attached
    rw [sim.get? (sim.attached h attached)]
  rw [Document.find?, Document.find?, funext each]

theorem attributes (sim : Simulates known d c) (hh : known h) : c.attributes h = d.attributes h := by
  rw [Document.attributes, Document.attributes, sim.element h hh]

theorem list (sim : Simulates known d c) (identityAttribute : String) :
    c.list identityAttribute = d.list identityAttribute := by
  have placeholders : (d.handles.filter fun h => h ≠ root && !c.isPlaceholder h placeholderPhrase) =
      d.handles.filter fun h => h ≠ root && !d.isPlaceholder h placeholderPhrase := by
    apply List.filter_congr
    intro h attached
    rw [(sim.sameBelow (sim.attached h attached)).isPlaceholder]
  rw [Document.list, Document.list, sim.handles, placeholders]
  apply mapM_congr
  intro h mem
  have hh := sim.attached h (List.mem_of_mem_filter mem)
  have same := sim.sameBelow hh
  simp only [same.tag, same.displayText, sim.get? hh, sim.attributes hh]

theorem serialize (sim : Simulates known d c) : c.serialize = d.serialize := by
  rw [Document.serialize, Document.serialize, toTree, toTree, sim.outline]
  congr 1
  exact Forest.map_congr fun h attached => sim.element h (sim.attached h attached)

theorem handle? (sim : Simulates known d c) (n : Handle) : c.handle? n = d.handle? n := by
  rw [Document.handle?, Document.handle?, sim.size]

theorem about (sim : Simulates known d c) {n : Handle} {answer answer' : Handle → Answer}
    (same : ∀ h : Handle, n = h → answer' h = answer h) : c.about n answer' = d.about n answer := by
  rw [Document.about, Document.about, sim.handle?]
  cases found : d.handle? n with
  | error e => rfl
  | ok h => simp only [same h (eq_of_handle? found)]

theorem answer (sim : Simulates known d c) {q : Query} (uses : ∀ h : Handle, h ∈ q.named → known h) :
    c.answer q = d.answer q := by
  cases q with
  | root => rfl
  | handles => rw [Document.answer, Document.answer, sim.handles]
  | count => rw [Document.answer, Document.answer, sim.handles]
  | serialize => rw [Document.answer, Document.answer, sim.serialize]
  | list identityAttribute => rw [Document.answer, Document.answer, sim.list]
  | find value names => rw [Document.answer, Document.answer, sim.find?]
  | tag n =>
      apply sim.about
      intro h same
      rw [(sim.sameBelow (uses h (by simp [Query.named, same]))).tag]
  | children n =>
      apply sim.about
      intro h same
      rw [children, children, sim.below h (uses h (by simp [Query.named, same]))]
  | text n =>
      apply sim.about
      intro h same
      rw [(sim.sameBelow (uses h (by simp [Query.named, same]))).text]
  | lines n =>
      apply sim.about
      intro h same
      rw [(sim.sameBelow (uses h (by simp [Query.named, same]))).lines]
  | displayText n =>
      apply sim.about
      intro h same
      rw [(sim.sameBelow (uses h (by simp [Query.named, same]))).displayText]
  | isPlaceholder n phrase =>
      rw [Document.answer, Document.answer]
      apply ite_congr rfl (fun _ => rfl)
      intro _
      apply sim.about
      intro h same
      rw [(sim.sameBelow (uses h (by simp [Query.named, same]))).isPlaceholder]
  | get n name =>
      apply sim.about
      intro h same
      rw [sim.get? (uses h (by simp [Query.named, same]))]
  | has n name =>
      apply sim.about
      intro h same
      rw [has, has, sim.get? (uses h (by simp [Query.named, same]))]
  | attributes n =>
      rw [Document.answer, Document.answer, sim.handle?]
      cases found : d.handle? n with
      | error e => rfl
      | ok h => simp only [sim.attributes (uses h (by simp [Query.named, eq_of_handle? found]))]

/-! ### Calls -/

theorem callEdit (sim : Simulates known d c) {e : Edit} (uses : ∀ h : Handle, h ∈ e.named → known h) :
    (c.call (.edit e)).1 = (d.call (.edit e)).1 ∧
      Simulates known (d.call (.edit e)).2 (c.call (.edit e)).2 := by
  cases e with
  | set n name value | remove n name =>
      simp only [Document.call, Edit.apply, bind, Except.bind, pure, Except.pure, sim.handle?]
      cases found : d.handle? n with
      | error e => exact ⟨rfl, sim⟩
      | ok h => exact ⟨rfl, sim.mapElement (lt_size_of_handle? found) _⟩
  | setText n text =>
      simp only [Document.call, Edit.apply, bind, Except.bind, pure, Except.pure, sim.handle?]
      cases found : d.handle? n with
      | error e => exact ⟨rfl, sim⟩
      | ok h => exact ⟨rfl, sim.setText (lt_size_of_handle? found) text⟩
  | appendChild n tag attributes text =>
      simp only [Document.call, Edit.apply, bind, Except.bind, pure, Except.pure, sim.handle?]
      cases found : d.handle? n with
      | error e => exact ⟨rfl, sim⟩
      | ok h =>
          have hh : known h := uses h (by simp [Edit.named, eq_of_handle? found])
          exact ⟨by simp [sim.size], sim.appendElement hh (lt_size_of_handle? found) _⟩
  | move side n m =>
      simp only [Document.call, Edit.apply, bind, Except.bind, pure, Except.pure, sim.handle?]
      by_cases same : n = m
      · simp only [same, if_true, true_and]
        exact sim
      · simp only [same, if_false]
        cases found : d.handle? n with
        | error e => exact ⟨rfl, sim⟩
        | ok h =>
            simp only [sim.parent?]
            cases orphan : (d.parent? h).isNone with
            | true => exact ⟨rfl, sim⟩
            | false =>
                simp only [Bool.false_eq_true, if_false]
                cases found' : d.handle? m with
                | error e => exact ⟨rfl, sim⟩
                | ok r =>
                    cases moved : d.move? side h r with
                    | none =>
                        simp only [moved, sim.move?_eq_none moved, true_and]
                        exact sim
                    | some d' =>
                        obtain ⟨c', moved', sim'⟩ := sim.move? moved
                        simp only [moved, moved', true_and]
                        exact sim'

theorem call (sim : Simulates known d c) {a : Call} (uses : ∀ h : Handle, h ∈ a.named → known h) :
    (c.call a).1 = (d.call a).1 ∧ Simulates known (d.call a).2 (c.call a).2 := by
  cases a with
  | edit e => exact sim.callEdit uses
  | query q => exact ⟨sim.answer uses, sim⟩
  | parent n =>
      refine ⟨sim.about fun h _ => ?_, sim⟩
      rw [sim.parent?]
  | ancestors n =>
      refine ⟨sim.about fun h _ => ?_, sim⟩
      rw [sim.ancestors]
  | isContent n =>
      refine ⟨sim.about fun h same => ?_, sim⟩
      rw [sim.isContent (uses h (by simp [Call.named, same]))]

end Simulates

end Document

/-! ## Sessions with a copy -/

namespace Session

/-- Sessions with a document and with one that stands for it answer alike as long as calls name what is
known. -/
theorem run_simulates {known : Handle → Prop} {s t : Session} (hs : s.Sound) (ht : t.Sound)
    (sim : Document.Simulates known s.document t.document) {calls : List Call}
    (uses : ∀ c ∈ calls, ∀ h : Handle, h ∈ c.named → known h) :
    (t.run calls).1 = (s.run calls).1 ∧
      Document.Simulates known (s.run calls).2.document (t.run calls).2.document := by
  induction calls generalizing s t with
  | nil => exact ⟨rfl, sim⟩
  | cons c calls ih =>
      have made := agrees_call hs c
      have made' := agrees_call ht c
      obtain ⟨answer, sim'⟩ := sim.call (uses c List.mem_cons_self)
      rw [← made.document, ← made'.document] at sim'
      obtain ⟨answers, last⟩ := ih made.sound made'.sound sim' fun c mem => uses c (List.mem_cons_of_mem _ mem)
      have first : (t.call c).1 = (s.call c).1 := by rw [made.answer, made'.answer, answer]
      exact ⟨congrArg₂ List.cons first answers, last⟩

/-- Calls have the same answers in a copy as in its source, and leave the same markup behind. They may name
whatever hung together with the root when the copy was made, and whatever was made after that. -/
theorem run_copy {d : Document} (hd : d.Reachable) (before calls : List Call)
    (uses : ∀ c ∈ calls, ∀ h : Handle, h ∈ c.named →
      h ∈ (run { document := d } before).2.document.handles ∨
        (run { document := d } before).2.document.elements.size ≤ h) :
    let s := (run { document := d } before).2
    (s.copy.run calls).1 = (s.run calls).1 ∧
      (s.copy.run calls).2.document.serialize = (s.run calls).2.document.serialize := by
  intro s
  have sound : s.Sound := sound_run (sound_start hd.wellFormed) before
  have start := Document.simulates_copy sound.wellFormed
  obtain ⟨answers, last⟩ := run_simulates sound (sound_start start.copy) start uses
  exact ⟨answers, last.serialize⟩

/-- Puts a line into the group and another below it, writes into the group, and asks about them and about the
rectangle. -/
def refill : List Call :=
  [.edit (.appendChild 1 "text" [] "A"), .edit (.appendChild 6 "tspan" [] "B"), .query (.text 1),
    .edit (.move .after 4 1), .edit (.setText 1 "C"), .query (.children 6), .parent 4, .query .handles]

theorem regroup_copy :
    let s := (run { document := group } regroup).2
    group.Reachable ∧ s.document.handles = [0, 4, 1] ∧ s.document.elements.size = 6 ∧
      (s.run refill).2.document.handles = [0, 1, 4] ∧
      (s.copy.run refill).1 = (s.run refill).1 ∧
      (s.copy.run refill).2.document.serialize = (s.run refill).2.document.serialize := by
  have reachable : group.Reachable := .tree _ (by decide)
  have handles : (run { document := group } regroup).2.document.handles = [0, 4, 1] := by decide
  have size : (run { document := group } regroup).2.document.elements.size = 6 := by decide
  have named : ∀ c ∈ refill, ∀ n ∈ c.named, n ∈ [0, 4, 1] ∨ 6 ≤ n := by decide
  refine ⟨reachable, handles, size, by decide, run_copy reachable regroup refill ?_⟩
  rw [handles, size]
  intro c mem h uses
  have known := named c mem h uses
  simp only [List.mem_cons, List.not_mem_nil, or_false] at known ⊢
  exact_mod_cast known

end Session

end SvgForm
