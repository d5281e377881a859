import SvgForm.Proofs.Document.Session
import SvgForm.Proofs.Render.Text
import SvgForm.Proofs.Xml.AttributeOrder
/-! # What rendering leaves alone

Rendering writes a few attributes, and the texts of elements. What it does not write into stays as it is, and
what it does keeps its place and its other attributes, unless a text is written into an element around it.
-/

namespace SvgForm

/-- The attributes that rendering writes. -/
def renderedAttributes : List String :=
  ["opacity", "visibility", "display", "style", "href", "xlink:href", "transform"]

/-- What an element keeps even if it is written into: all but its text and the attributes that rendering
writes. -/
def Xml.Element.steady (e : Xml.Element) : Xml.Element :=
  { e with
    attributes := e.attributes.filter (·.1 ∉ renderedAttributes.map Xml.qualify)
    text := "" }

theorem Xml.Element.attribute?_steady (e : Xml.Element) {name : String}
    (kept : name ∉ renderedAttributes.map Xml.qualify) : e.steady.attribute? name = e.attribute? name :=
  Xml.lookup_filter (p := fun n => decide (n ∉ renderedAttributes.map Xml.qualify)) (by simpa using kept)
    e.attributes

namespace Document

variable {ε : Type} {d d' : Document} {h x : Handle} {written texts : Handle → Prop}

/-- A part of rendering that writes into the elements `written` only, and texts into `texts`. -/
structure Frame (written texts : Handle → Prop) (d d' : Document) : Prop where
  wellFormed : d'.WellFormed
  grows : d.elements.size ≤ d'.elements.size
  order : (d'.handles.filter (· < d.elements.size)).Sublist d.handles
  keeps : ∀ x ∈ d.handles, (∀ y, texts y → ¬ d.outline.Below y x) → x ∈ d'.handles
  below : ∀ x, ∀ y < d.elements.size, d'.outline.Below x y → d.outline.Below x y
  children : ∀ p < d.elements.size, ¬ texts p → d'.children p = d.children p
  element : ∀ x < d.elements.size, ¬ written x → d'.element x = d.element x
  steady : ∀ x < d.elements.size, (d'.element x).steady = (d.element x).steady
  /-- New elements have no id. -/
  nameless : ∀ x, d.elements.size ≤ x → d'.get? x "id" = none

theorem get?_of_size_le (hx : d.elements.size ≤ x) (name : String) : d.get? x name = none := by
  simp [get?, element, hx, Xml.Element.attribute?]

theorem get?_id_eq (steady : (d'.element x).steady = (d.element x).steady) :
    d'.get? x "id" = d.get? x "id" := by
  have kept : Xml.qualify "id" ∉ renderedAttributes.map Xml.qualify := by decide
  rw [get?, get?, ← Xml.Element.attribute?_steady _ kept, steady, Xml.Element.attribute?_steady _ kept]

namespace Frame

theorem refl (hd : d.WellFormed) : Frame written texts d d where
  wellFormed := hd
  grows := Nat.le_refl _
  order := List.filter_sublist
  keeps := fun _ hx _ => hx
  below := fun _ _ _ below => below
  children := fun _ _ _ => rfl
  element := fun _ _ _ => rfl
  steady := fun _ _ => rfl
  nameless := fun _ hx => get?_of_size_le hx "id"

theorem mono {written' texts' : Handle → Prop} (frame : Frame written texts d d')
    (more : ∀ x, written x → written' x) (more' : ∀ x, texts x → texts' x) :
    Frame written' texts' d d' where
  wellFormed := frame.wellFormed
  grows := frame.grows
  order := frame.order
  keeps := fun x hx apart => frame.keeps x hx fun y hy => apart y (more' y hy)
  below := frame.below
  children := fun p hp other => frame.children p hp fun here => other (more' p here)
  element := fun x hx other => frame.element x hx fun here => other (more x here)
  steady := frame.steady
  nameless := frame.nameless

theorem trans {d₁ d₂ d₃ : Document} (hd : d₁.WellFormed) (first : Frame written texts d₁ d₂)
    (second : Frame written texts d₂ d₃) : Frame written texts d₁ d₃ where
  wellFormed := second.wellFormed
  grows := Nat.le_trans first.grows second.grows
  order := by
    have grows := first.grows
    have same : (d₃.handles.filter (· < d₂.elements.size)).filter (· < d₁.elements.size) =
        d₃.handles.filter (· < d₁.elements.size) := by
      rw [List.filter_filter]
      refine List.filter_congr fun x _ => ?_
      rw [← Bool.decide_and]
      exact decide_eq_decide.mpr (by omega)
    rw [← same]
    exact (second.order.filter _).trans first.order
  keeps := by
    intro x hx apart
    refine second.keeps x (first.keeps x hx apart) fun y hy below => apart y hy ?_
    exact first.below y x (hd.lt_size hx) below
  below := by
    intro x y old below
    exact first.below x y old (second.below x y (Nat.lt_of_lt_of_le old first.grows) below)
  children := by
    intro p hp other
    rw [second.children p (Nat.lt_of_lt_of_le hp first.grows) other, first.children p hp other]
  element := by
    intro x hx other
    rw [second.element x (Nat.lt_of_lt_of_le hx first.grows) other, first.element x hx other]
  steady := by
    intro x hx
    rw [second.steady x (Nat.lt_of_lt_of_le hx first.grows), first.steady x hx]
  nameless := by
    intro x hx
    rcases Nat.lt_or_ge x d₂.elements.size with old | new
    · rw [get?_id_eq (second.steady x old), first.nameless x hx]
    · exact second.nameless x new

/-! ## Attributes -/

theorem of_attributes (hd : d.WellFormed) (hh : h < d.elements.size)
    {g : List (String × String) → List (String × String)}
    (keeps : ∀ l, (g l).filter (·.1 ∉ renderedAttributes.map Xml.qualify) =
      l.filter (·.1 ∉ renderedAttributes.map Xml.qualify)) :
    Frame (· = h) texts d (d.mapElement h fun e => { e with attributes := g e.attributes }) where
  wellFormed := hd.mapElement h _
  grows := by simp [mapElement]
  order := List.filter_sublist
  keeps := fun _ hx _ => hx
  below := fun _ _ _ below => below
  children := fun _ _ _ => rfl
  element := fun x _ other => by rw [element_mapElement _ hh, if_neg other]
  steady := by
    intro x _
    rw [element_mapElement _ hh]
    split
    · simp only [Xml.Element.steady, keeps]
    · rfl
  nameless := by
    intro x hx
    exact get?_of_size_le (by simpa [mapElement] using hx) "id"

theorem set (hd : d.WellFormed) (hh : h < d.elements.size) (name value : String)
    (rendered : name ∈ renderedAttributes) : Frame (· = h) texts d (d.set h name value) :=
  of_attributes hd hh fun l =>
    Xml.Change.filter_setAttribute_of_neg (p := fun n => decide (n ∉ renderedAttributes.map Xml.qualify))
      (by simpa using ⟨name, rendered, rfl⟩)

theorem remove (hd : d.WellFormed) (hh : h < d.elements.size) (name : String)
    (rendered : name ∈ renderedAttributes) : Frame (· = h) texts d (d.remove h name) :=
  of_attributes hd hh fun l => by
    rw [List.filter_filter]
    refine List.filter_congr fun entry _ => ?_
    have := List.mem_map_of_mem (f := Xml.qualify) rendered
    by_cases same : entry.1 = Xml.qualify name
    · simp only [same, this]
      simp
    · simp [same]

/-! ## Texts -/

theorem setText (hd : d.WellFormed) (hh : h < d.elements.size) (text : String) :
    Frame (· = h) (· = h) d (d.setText h text) where
  wellFormed := hd.setText h text
  grows := by simp [Document.setText]
  order := Forest.filter_mapChildren_sublist (g := fun _ => .nil) (fun _ => List.nil_sublist _) d.outline
  keeps := by
    intro x hx apart
    by_cases attached : h ∈ d.handles
    · exact (mem_handles_setText hd attached text).mpr ⟨hx, apart h rfl⟩
    · rw [handles, Document.setText, Forest.mapChildren_of_not_mem attached]
      exact hx
  below := fun _ _ _ below => Below.of_setText below
  children := by
    intro p _ other
    rw [Document.children, below_setText_eq hd hh, if_neg other, Forest.roots_mapChildren,
      Document.children]
  element := fun x _ other => by rw [element_setText hh, if_neg other]
  steady := by
    intro x _
    rw [element_setText hh]
    split <;> rfl
  nameless := by
    intro x hx
    exact get?_of_size_le (by simpa [Document.setText] using hx) "id"

theorem appendElement (hd : d.WellFormed) (hh : h < d.elements.size) {e : Xml.Element}
    (unnamed : e.attribute? (Xml.qualify "id") = none) :
    Frame (· = h) (· = h) d (d.appendElement h e) where
  wellFormed := hd.appendElement hh e
  grows := by simp [size_appendElement]
  order := by
    refine Forest.filter_mapChildren_sublist (fun c => ?_) d.outline
    rw [Forest.toList_append, Forest.toList_ofRoots, List.filter_append]
    simp
  keeps := by
    intro x hx _
    by_cases attached : h ∈ d.handles
    · exact (mem_handles_appendElement hd attached e).mpr (.inl hx)
    · rw [handles, Document.appendElement, Forest.mapChildren_of_not_mem attached]
      exact hx
  below := fun _ _ old below => Below.of_appendElement (Nat.ne_of_lt old) below
  children := by
    intro p hp other
    rw [Document.children, below_appendElement_eq hd hh, if_neg (Nat.ne_of_lt hp), if_neg other,
      Forest.roots_mapChildren, Document.children]
  element := fun x hx _ => by rw [element_appendElement, if_neg (Nat.ne_of_lt hx)]
  steady := fun x hx => by rw [element_appendElement, if_neg (Nat.ne_of_lt hx)]
  nameless := by
    intro x hx
    rcases Nat.eq_or_lt_of_le hx with rfl | later
    · rw [get?, element_appendElement, if_pos rfl, unnamed]
    · exact get?_of_size_le (by rw [size_appendElement]; exact later) "id"

/-- One part of rendering after another, at the same element. -/
theorem andThen {d₁ d₂ d₃ : Document} (hd : d₁.WellFormed) (hh : h < d₁.elements.size)
    (first : Frame written texts d₁ d₂)
    (next : d₂.WellFormed → h < d₂.elements.size → Frame written texts d₂ d₃) :
    Frame written texts d₁ d₃ :=
  first.trans hd (next first.wellFormed (Nat.lt_of_lt_of_le hh first.grows))

theorem setVisible (hd : d.WellFormed) (hh : h < d.elements.size) (visible : Bool) :
    Frame (· = h) texts d (d.setVisible h visible) := by
  cases visible with
  | true =>
      refine (Frame.set hd hh "opacity" "1" (by decide)).andThen hd hh fun hd hh => ?_
      refine (Frame.set hd hh "visibility" "visible" (by decide)).andThen hd hh fun hd hh => ?_
      exact .remove hd hh "display" (by decide)
  | false =>
      refine (Frame.set hd hh "opacity" "0" (by decide)).andThen hd hh fun hd hh => ?_
      refine (Frame.set hd hh "visibility" "hidden" (by decide)).andThen hd hh fun hd hh => ?_
      exact .set hd hh "display" "none" (by decide)

theorem setSource (hd : d.WellFormed) (hh : h < d.elements.size) (source : String) :
    Frame (· = h) texts d (d.setSource h source) := by
  unfold Document.setSource
  split
  · exact .refl hd
  · refine .set hd hh _ source ?_
    split <;> decide

theorem image (hd : d.WellFormed) (hh : h < d.elements.size) (source : String) (gray : Option Bool) :
    Frame (· = h) texts d (if gray = some true
      then (d.setSource h source).setStyle h "filter" grayscaleFilter else d.setSource h source) := by
  split
  · exact (setSource hd hh source).andThen hd hh fun hd hh =>
      .set hd hh "style" _ (by decide)
  · exact setSource hd hh source

theorem appendLine (hd : d.WellFormed) (hh : h < d.elements.size) (ax dy : Option String)
    (line : List Char) : Frame (· = h) (· = h) d (appendLine h ax dy d line) := by
  refine appendElement hd hh ?_
  have x : Xml.qualify "id" ≠ Xml.qualify "x" := by decide
  have y : Xml.qualify "id" ≠ Xml.qualify "dy" := by decide
  cases ax <;> cases dy <;> simp [Xml.Element.attribute?, Xml.lookup_setAttribute, x, y]

theorem appendLines (hd : d.WellFormed) (hh : h < d.elements.size) (ax dy : Option String)
    (lines : List (List Char)) :
    Frame (· = h) (· = h) d (lines.foldl (Document.appendLine h ax dy) d) := by
  induction lines generalizing d with
  | nil => exact .refl hd
  | cons line lines ih => exact (appendLine hd hh ax dy line).andThen hd hh fun hd hh => ih hd hh

theorem setLines (hd : d.WellFormed) (hh : h < d.elements.size) (first : List Char)
    (rest : List (List Char)) (spacing : String) :
    Frame (· = h) (· = h) d (d.setLines h first rest spacing) := by
  refine (setText hd hh "").andThen hd hh fun hd hh => ?_
  refine (appendLine hd hh (d.get? h "x") none first).andThen hd hh fun hd hh => ?_
  exact appendLines hd hh (d.get? h "x") (some spacing) rest

theorem layText {m : FontGauge ε} {text : String} {width : Option Float} (hd : d.WellFormed)
    (hh : h < d.elements.size) (made : d.layText m h text width = .ok d') :
    Frame (· = h) (· = h) d d' := by
  simp only [Document.layText, except_bind_ok] at made
  obtain ⟨lines, -, made⟩ := made
  split at made
  case h_1 first second rest =>
    obtain ⟨extent, -, made⟩ := except_bind_ok.mp made
    obtain rfl := Except.ok.inj made
    exact setLines hd hh first (second :: rest) _
  case h_2 =>
    obtain rfl := Except.ok.inj made
    exact setText hd hh text

theorem rotate {degrees : Option Number} (hd : d.WellFormed) (hh : h < d.elements.size)
    (made : d.rotate h degrees = (.ok d' : Except (RenderError ε) Document)) : Frame (· = h) texts d d' := by
  cases degrees with
  | none =>
      obtain rfl := Except.ok.inj made
      exact .refl hd
  | some angle =>
      simp only [Document.rotate] at made
      split at made
      case isTrue =>
        obtain rfl := Except.ok.inj made
        exact .remove hd hh "transform" (by decide)
      case isFalse =>
        obtain ⟨value, -, made⟩ := except_bind_ok.mp made
        obtain rfl := Except.ok.inj made
        exact .set hd hh "transform" value (by decide)

theorem toggle (hd : d.WellFormed) (hh : h < d.elements.size) (f : Field) (checked : Bool) :
    Frame (· = h) texts d (d.toggle h f checked) := by
  unfold Document.toggle
  split
  · exact .setVisible hd hh _
  · exact .refl hd

end Frame

/-! ## Options -/

theorem head?_of_sublist {α : Type} {a : α} {l l' : List α} (distinct : l.Nodup) (among : l'.Sublist l)
    (first : l.head? = some a) (mem : a ∈ l') : l'.head? = some a := by
  obtain ⟨rest, rfl⟩ := List.head?_eq_some_iff.mp first
  cases among with
  | cons _ later => exact absurd (later.subset mem) (List.nodup_cons.mp distinct).1
  | cons_cons _ _ => rfl

theorem find?_id (d : Document) (value : String) : d.find? value ["id"] =
    if value = "" then none else d.handles.find? fun h => d.get? h "id" = some value := by
  rw [find?]
  split
  · rfl
  · cases found : d.handles.find? fun h => d.get? h "id" = some value <;> simp [found]

theorem get?_of_find? {value : String} (found : d.find? value ["id"] = some x) :
    d.get? x "id" = some value := by
  rw [find?_id] at found
  split at found
  case isTrue => cases found
  case isFalse => simpa using List.find?_some found

/-- The elements that the sources of options lead to. -/
def optionHandles (d : Document) (options : List SelectOption) : List Handle :=
  options.filterMap fun o => d.find? o.source ["id"]

theorem mem_optionHandles {options : List SelectOption} :
    x ∈ d.optionHandles options ↔ ∃ o ∈ options, d.find? o.source ["id"] = some x := by
  simp [optionHandles]

namespace Frame

/-- No element gets an id, loses it or has it changed. -/
theorem get?_id (frame : Frame written texts d d') (x : Handle) : d'.get? x "id" = d.get? x "id" := by
  rcases Nat.lt_or_ge x d.elements.size with old | new
  · exact get?_id_eq (frame.steady x old)
  · rw [frame.nameless x new, get?_of_size_le new]

theorem find?_id_eq (frame : Frame written texts d d') (content : SameContent d d') (value : String) :
    d'.find? value ["id"] = d.find? value ["id"] := by
  simp only [find?_id, content.handles, frame.get?_id]

/-- An element that is the first with its id stays the first, unless a text is written into an element around
it. -/
theorem find?_of_first (frame : Frame written texts d d') (hd : d.WellFormed) {value : String}
    (first : d.find? value ["id"] = some x) (outside : ∀ y, texts y → ¬ d.outline.Below y x) :
    d'.find? value ["id"] = some x := by
  have hx := mem_handles_of_find? first
  have named := get?_of_find? first
  rw [find?_id, ← List.head?_filter] at first ⊢
  split at first
  case isTrue => cases first
  case isFalse given =>
      rw [if_neg given]
      -- New elements have no id, so those with this one are among those there were.
      have among : (d'.handles.filter fun y => d'.get? y "id" = some value).Sublist
          (d.handles.filter fun y => d.get? y "id" = some value) := by
        refine List.Sublist.trans ?_ (frame.order.filter _)
        rw [List.filter_filter]
        refine List.monotone_filter_right _ fun y with_id => ?_
        simp only [decide_eq_true_eq, frame.get?_id, Bool.and_eq_true] at with_id ⊢
        refine ⟨with_id, ?_⟩
        by_contra new
        rw [get?_of_size_le (Nat.le_of_not_lt new)] at with_id
        cases with_id
      have still : x ∈ d'.handles.filter fun y => d'.get? y "id" = some value := by
        rw [List.mem_filter, frame.get?_id, named]
        exact ⟨frame.keeps x hx outside, decide_eq_true rfl⟩
      exact head?_of_sublist (hd.handles_nodup.filter _) among first still

theorem showOption (hd : d.WellFormed) (o : SelectOption) (chosen : Bool) :
    Frame (fun x => d.find? o.source ["id"] = some x) texts d (d.showOption o chosen) := by
  unfold Document.showOption
  cases found : d.find? o.source ["id"] with
  | none => exact .refl hd
  | some h =>
      have hh := hd.lt_size (mem_handles_of_find? found)
      have here : ∀ x, x = h → some h = some x := fun x same => by rw [same]
      dsimp only
      split
      case isTrue => exact (Frame.setVisible hd hh true).mono here fun _ => id
      case isFalse =>
        have hidden : Frame (· = h) texts d _ := (Frame.setVisible hd hh false).andThen hd hh
          fun hd hh => Frame.remove hd hh "style" (by decide)
        exact hidden.mono here fun _ => id

theorem choose (hd : d.WellFormed) (options : List SelectOption) (value : String) :
    Frame (· ∈ d.optionHandles options) texts d (d.choose options value) := by
  have numbered : ∀ (numbered : List (SelectOption × Nat)) (chosen : Nat) (d : Document), d.WellFormed →
      Frame (fun x => ∃ p ∈ numbered, d.find? p.1.source ["id"] = some x) texts d
        (numbered.foldl (fun d p => d.showOption p.1 (p.2 = chosen)) d) := by
    intro numbered chosen
    induction numbered with
    | nil => exact fun d hd => .refl hd
    | cons p rest ih =>
        intro d hd
        have first : Frame _ texts d _ := showOption hd p.1 (decide (p.2 = chosen))
        have same := first.find?_id_eq (sameContent_showOption d p.1 _)
        refine (first.mono (fun x found => ⟨p, List.mem_cons_self, found⟩) fun _ => id).trans hd ?_
        refine (ih _ first.wellFormed).mono (fun x => ?_) fun _ => id
        rintro ⟨q, mem, found⟩
        exact ⟨q, List.mem_cons_of_mem p mem, by rwa [same] at found⟩
  refine (numbered options.zipIdx _ d hd).mono (fun x => ?_) fun _ => id
  rintro ⟨p, mem, found⟩
  exact mem_optionHandles.mpr ⟨p.1, List.fst_mem_of_mem_zipIdx mem, found⟩

end Frame

/-! ## Fields -/

variable {m : FontGauge ε} {identities : List (Handle × String)} {filling : Filling} {f : Field} {v : Value}

/-- The elements that a field is written into: its own and, if it is a select field, those of its options. -/
def writtenFor (d : Document) (identities : List (Handle × String)) (f : Field) : List Handle :=
  if f.kind = .static then []
  else
    match d.locateField? identities f with
    | none => []
    | some h => h :: if f.kind = .select then d.optionHandles f.options else []

theorem WellFormed.lt_size_of_mem_identities {holder : String} {e : Handle × String} (hd : d.WellFormed)
    (mem : e ∈ d.identities holder) : e.1 < d.elements.size :=
  hd.lt_size_of_eligible (hd.mem_identities_iff.mp mem).1

theorem lt_size_of_locateField? (hd : d.WellFormed) (placed : ∀ e ∈ identities, e.1 < d.elements.size)
    (located : d.locateField? identities f = some h) : h < d.elements.size := by
  rcases Option.or_eq_some_iff.mp located with identified | ⟨-, named⟩
  · obtain ⟨identity, -, found⟩ := Option.bind_eq_some_iff.mp identified
    split at found
    case isTrue => cases found
    case isFalse =>
      obtain ⟨e, first, rfl⟩ := Option.map_eq_some_iff.mp found
      exact placed e (List.mem_of_find?_eq_some first)
  · obtain ⟨id, -, found⟩ := Option.bind_eq_some_iff.mp named
    exact hd.lt_size (mem_handles_of_find? found)

namespace Frame

theorem writeValue {width : Option Float} (hd : d.WellFormed) (hh : h < d.elements.size)
    (made : d.writeValue m h f v width = .ok d') :
    Frame (· ∈ h :: if f.kind = .select then d.optionHandles f.options else [])
      (fun x => f.kind.isTextual = true ∧ x = h) d d' := by
  have own : ∀ x, x = h → x ∈ h :: if f.kind = .select then d.optionHandles f.options else [] :=
    fun x same => same ▸ List.mem_cons_self
  cases textual : f.kind.isTextual with
  | true =>
      rcases writeValue_of_textual (d := d) textual m h v width with ⟨-, nothing⟩ | ⟨-, written⟩
      · obtain rfl := Except.ok.inj (nothing.symm.trans made)
        exact .refl hd
      · exact (Frame.layText hd hh (written.symm.trans made)).mono own fun x same => ⟨rfl, same⟩
  | false =>
      unfold Document.writeValue at made
      cases kind : f.kind with
      | static =>
          simp only [kind, Except.ok.injEq] at made
          exact made ▸ .refl hd
      | select =>
          simp only [kind, Except.ok.injEq] at made
          exact made ▸ (Frame.choose hd f.options v.display).mono
            (fun x mem => List.mem_cons_of_mem h (by simpa [kind] using mem)) fun _ => id
      | checkbox =>
          simp only [kind, Except.ok.injEq] at made
          exact made ▸ (Frame.setVisible hd hh _).mono (kind ▸ own) fun _ => id
      | upload | file =>
          simp only [kind, Except.ok.injEq] at made
          exact made ▸ (Frame.image hd hh v.display f.grayscale).mono (kind ▸ own) fun _ => id
      | _ => simp [kind, Kind.isTextual] at textual

theorem renderField (hd : d.WellFormed) (placed : ∀ e ∈ identities, e.1 < d.elements.size)
    (made : Document.renderField m identities filling d f v = .ok d') :
    Frame (· ∈ d.writtenFor identities f)
      (fun x => f.kind.isTextual = true ∧ d.locateField? identities f = some x) d d' := by
  rw [Document.renderField] at made
  rw [writtenFor]
  split at made
  case isTrue fixed =>
    obtain rfl := Except.ok.inj made
    exact .refl hd
  case isFalse moving =>
    rw [if_neg moving]
    cases located : d.locateField? identities f with
    | none =>
        simp only [located, Except.ok.injEq] at made
        exact made ▸ .refl hd
    | some h =>
        have hh := lt_size_of_locateField? hd placed located
        have own : ∀ x, x = h → x ∈ h :: if f.kind = .select then d.optionHandles f.options else [] :=
          fun x same => same ▸ List.mem_cons_self
        simp only [located, except_bind_ok] at made
        obtain ⟨d₁, written, d₂, rotated, made⟩ := made
        obtain rfl := Except.ok.inj made
        have written : d.writeValue m h f v (filling.wrapWidths.lookup f.id) = .ok d₁ := by
          cases result : d.writeValue m h f v (filling.wrapWidths.lookup f.id) <;>
            simp_all [Except.mapError]
        have here : ∀ x, f.kind.isTextual = true ∧ x = h → f.kind.isTextual = true ∧ some h = some x :=
          fun x both => ⟨both.1, by rw [both.2]⟩
        refine ((Frame.writeValue hd hh written).mono (fun _ => id) here).andThen hd hh fun hd hh => ?_
        refine ((Frame.rotate hd hh rotated).mono own fun _ => id).andThen hd hh fun hd hh => ?_
        exact (Frame.toggle hd hh f _).mono own fun _ => id

end Frame

/-! ## All fields -/

/-- The fields that are rendered, each with the state of the copy when its turn comes. -/
def turns (m : FontGauge ε) (identities : List (Handle × String)) (filling : Filling) :
    List (Field × Value) → Document → List (Field × Document)
  | [], _ => []
  | (f, v) :: rest, d => (f, d) ::
    match renderField m identities filling d f v with
    | .ok d' => turns m identities filling rest d'
    | .error _ => []

theorem turns_cons {r : Field × Value} {rest : List (Field × Value)}
    (made : renderField m identities filling d r.1 r.2 = .ok d') :
    turns m identities filling (r :: rest) d = (r.1, d) :: turns m identities filling rest d' := by
  simp only [turns, made]

/-- Turns come to fields that are rendered, and ids are what they were. -/
theorem mem_turns {fields : List (Field × Value)} (hd : d.WellFormed)
    (placed : ∀ e ∈ identities, e.1 < d.elements.size) {t : Field × Document}
    (mem : t ∈ turns m identities filling fields d) :
    (∃ v, (t.1, v) ∈ fields) ∧ ∀ x, t.2.get? x "id" = d.get? x "id" := by
  induction fields generalizing d with
  | nil => cases mem
  | cons r rest ih =>
      cases made : renderField m identities filling d r.1 r.2 with
      | error e =>
          simp only [turns, made, List.mem_singleton] at mem
          obtain rfl := mem
          exact ⟨⟨r.2, List.mem_cons_self⟩, fun _ => rfl⟩
      | ok d' =>
          have first := Frame.renderField hd placed made
          rw [turns_cons made, List.mem_cons] at mem
          rcases mem with rfl | later
          · exact ⟨⟨r.2, List.mem_cons_self⟩, fun _ => rfl⟩
          · obtain ⟨⟨v, listed⟩, ids⟩ := ih first.wellFormed
              (fun e mem => Nat.lt_of_lt_of_le (placed e mem) first.grows) later
            exact ⟨⟨v, List.mem_cons_of_mem r listed⟩, fun x => (ids x).trans (first.get?_id x)⟩

theorem frame_renderEach {fields : List (Field × Value)} {out : Document} (hd : d.WellFormed)
    (placed : ∀ e ∈ identities, e.1 < d.elements.size)
    (done : renderEach m identities filling fields d = .ok out) :
    Frame (fun x => ∃ t ∈ turns m identities filling fields d, x ∈ t.2.writtenFor identities t.1)
      (fun x => ∃ t ∈ turns m identities filling fields d,
        t.1.kind.isTextual = true ∧ t.2.locateField? identities t.1 = some x) d out := by
  induction fields generalizing d with
  | nil =>
      obtain rfl := Except.ok.inj done
      exact .refl hd
  | cons r rest ih =>
      rw [renderEach_cons, except_bind_ok] at done
      obtain ⟨d', made, done⟩ := done
      rw [turns_cons made]
      have first := Frame.renderField hd placed made
      have later := ih first.wellFormed
        (fun e mem => Nat.lt_of_lt_of_le (placed e mem) first.grows) done
      refine (first.mono (fun x here => ?_) fun x here => ?_).trans hd
        (later.mono (fun x there => ?_) fun x there => ?_)
      · exact ⟨(r.1, d), List.mem_cons_self, here⟩
      · exact ⟨(r.1, d), List.mem_cons_self, here⟩
      · obtain ⟨t, mem, there⟩ := there
        exact ⟨t, List.mem_cons_of_mem _ mem, there⟩
      · obtain ⟨t, mem, there⟩ := there
        exact ⟨t, List.mem_cons_of_mem _ mem, there⟩

/-! ## Rendered documents -/

section

variable (d : Document) (fields : List Field) (filling : Filling) (m : FontGauge ε) (identityName : String)
  (draws : Draws)

/-- The fields with the states of the copy in which their turns come while a document is rendered. -/
def renderTurns : List (Field × Document) :=
  turns m (d.copy.identities identityName) filling
    (Field.resolveAll fields filling.values filling.changed draws) d.copy

/-- The elements that are written into while a document is rendered. -/
def renderedHandles : List Handle :=
  (d.renderTurns fields filling m identityName draws).flatMap fun t =>
    t.2.writtenFor (d.copy.identities identityName) t.1

/-- Those of them that textual fields are written into. -/
def renderedTexts : List Handle :=
  ((d.renderTurns fields filling m identityName draws).filter (·.1.kind.isTextual)).filterMap fun t =>
    t.2.locateField? (d.copy.identities identityName) t.1

end

variable {fields : List Field} {identityName : String} {draws : Draws} {out : Document}

theorem frame_render (hd : d.WellFormed)
    (returned : d.render fields filling m identityName draws = .ok out) :
    Frame (· ∈ d.renderedHandles fields filling m identityName draws)
      (· ∈ d.renderedTexts fields filling m identityName draws) d.copy out := by
  have placed : ∀ e ∈ d.copy.identities identityName, e.1 < d.copy.elements.size :=
    fun _ => hd.copy.lt_size_of_mem_identities
  refine (frame_renderEach hd.copy placed returned).mono (fun x here => ?_) fun x here => ?_
  · exact List.mem_flatMap.mpr here
  · obtain ⟨t, mem, textual, located⟩ := here
    exact List.mem_filterMap.mpr ⟨t, List.mem_filter.mpr ⟨mem, textual⟩, located⟩

/-- An element that is not inside one with a text stays where it is, among the siblings it had. -/
theorem Frame.parent?_eq (frame : Frame written texts d d') (hd : d.WellFormed) (hx : x ∈ d.handles)
    (outside : ∀ y, texts y → ¬ d.outline.Below y x) : d'.parent? x = d.parent? x := by
  cases above : d.parent? x with
  | none =>
      have top : x ∈ d.outline.roots :=
        Forest.mem_roots_of_parent? hx ((Document.parent?_eq hd x).trans above)
      rw [hd.roots_outline, ← frame.wellFormed.roots_outline] at top
      rw [← Document.parent?_eq frame.wellFormed x]
      exact Forest.parent?_of_mem_roots frame.wellFormed.handles_nodup top
  | some p =>
      have higher : d.outline.Below p x := hd.mem_ancestors_iff.mp (List.mem_of_head? above)
      have hp : p ∈ d.handles := higher.mem_left
      have stays : p ∈ d'.handles := frame.keeps p hp fun y hy below =>
        outside y hy (below.trans hd.handles_nodup higher)
      have child : x ∈ d.children p :=
        (mem_children_iff hd hp).mpr ((Document.parent?_eq hd x).trans above)
      rw [← frame.children p (hd.lt_size hp) fun text => outside p text higher,
        mem_children_iff frame.wellFormed stays, Document.parent?_eq frame.wellFormed] at child
      exact child

/-- An element that is not inside one which a textual field is written into stays where it is in the tree and
keeps its name, its tail and all attributes but those that rendering writes; it keeps all if it is not written
into. -/
theorem render_frame (hd : d.Reachable)
    (returned : d.render fields filling m identityName draws = .ok out) (hx : x ∈ d.handles)
    (outside : ∀ y ∈ d.ancestors x, y ∉ d.renderedTexts fields filling m identityName draws) :
    x ∈ out.handles ∧ out.parent? x = d.parent? x ∧
      (∀ p, d.parent? x = some p → out.children p = d.children p) ∧
      (out.element x).steady = (d.element x).steady ∧
      (x ∉ d.renderedHandles fields filling m identityName draws → out.element x = d.element x) := by
  have hwf := hd.wellFormed
  have frame := frame_render hwf returned
  have within : x < d.copy.elements.size := hwf.copy.lt_size hx
  have apart : ∀ y ∈ d.renderedTexts fields filling m identityName draws, ¬ d.copy.outline.Below y x :=
    fun y text below => outside y (hwf.mem_ancestors_iff.mpr below) text
  refine ⟨frame.keeps x hx apart, frame.parent?_eq hwf.copy hx apart, fun p above => ?_, ?_, fun other => ?_⟩
  · have higher : p ∈ d.ancestors x := List.mem_of_head? above
    have hp : p ∈ d.handles := ancestors_subset hwf higher
    rw [frame.children p (hwf.copy.lt_size hp) (outside p higher), children, children, (sameBelow_copy hp).below]
  · rw [frame.steady x within, element_copy hx]
  · rw [frame.element x within other, element_copy hx]

def letterFilling : Filling := { values := letterValues }

/-- The card around the written texts is as it was. -/
theorem letter_frame : ∃ fs out, letter.fields placeholderPhrase = .ok fs ∧
    letter.render fs letterFilling FontMetrics.noFiles.gauge identityAttribute (.cycling []) = .ok out ∧
    letter.renderedTexts fs letterFilling FontMetrics.noFiles.gauge identityAttribute (.cycling []) = [2, 3, 5, 6] ∧
    letter.renderedHandles fs letterFilling FontMetrics.noFiles.gauge identityAttribute (.cycling []) = [2, 3, 4, 5, 6] ∧
    1 ∈ out.handles ∧ out.parent? 1 = some 0 ∧ out.children 0 = [1, 4, 5, 6] ∧
    out.element 1 = letter.element 1 := by
  have reachable : letter.Reachable := .tree _ (by decide)
  have rendered : (letter.fields placeholderPhrase).toOption.bind (fun fs =>
      (letter.render fs letterFilling FontMetrics.noFiles.gauge identityAttribute (.cycling [])).toOption.map fun _ =>
        (letter.renderedTexts fs letterFilling FontMetrics.noFiles.gauge identityAttribute (.cycling []),
        letter.renderedHandles fs letterFilling FontMetrics.noFiles.gauge identityAttribute (.cycling []))) =
      some ([2, 3, 5, 6], [2, 3, 4, 5, 6]) := by decide +kernel
  obtain ⟨fs, parsed, rendered⟩ := Option.bind_eq_some_iff.mp rendered
  obtain ⟨out, done, written⟩ := Option.map_eq_some_iff.mp rendered
  obtain ⟨texts, handles⟩ := Prod.mk.inj written
  have outside : ∀ y ∈ letter.ancestors 1,
      y ∉ letter.renderedTexts fs letterFilling FontMetrics.noFiles.gauge identityAttribute (.cycling []) := by
    rw [texts]
    decide
  obtain ⟨stays, above, row, -, same⟩ := render_frame reachable (ok_of_toOption done)
    (show 1 ∈ letter.handles by decide) outside
  refine ⟨fs, out, ok_of_toOption parsed, ok_of_toOption done, texts, handles, stays, above, ?_, same ?_⟩
  · rw [row 0 (by decide)]
    decide
  · rw [handles]
    decide

end Document

end SvgForm
