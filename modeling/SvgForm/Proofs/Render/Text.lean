import SvgForm.Proofs.Document.Write
import SvgForm.Proofs.Render.Locate
import SvgForm.Proofs.Render.Values
/-! # Rendered texts

Fields are rendered one after another into one copy, each at its own element. A textual field changes what
shows at its element, and nothing that shows apart from it; any other field changes attributes only. So
where no textual field is inside another, each of them shows its value in the end.
-/

namespace SvgForm

/-- The text of a value. A date is written in the pattern of its field, if it has one and can be written so; anything
else is written as it is displayed. -/
inductive Field.Writes (f : Field) (v : Value) : String → Prop
  | date {pattern : String} (kind : f.kind = .date) (given : f.dateFormat = some pattern) (nonempty : pattern ≠ "")
      (written : Moment.formatSource (.value v) pattern.toList ≠ []) :
      f.Writes v (.ofList (Moment.formatSource (.value v) pattern.toList))
  | displayed (undated : f.kind = .date → ∀ pattern, f.dateFormat = some pattern → pattern ≠ "" →
      Moment.formatSource (.value v) pattern.toList = []) : f.Writes v v.display

/-- Every value has one text. -/
theorem Field.writes_iff {f : Field} {v : Value} {text : String} : f.Writes v text ↔ text = f.textOf v := by
  constructor
  · rintro (@⟨pattern, kind, given, nonempty, written⟩ | undated)
    · simp [textOf, Option.filter, given, kind, nonempty, written]
    · cases patterned : f.dateFormat.filter fun pattern => f.kind = .date ∧ pattern ≠ "" with
      | none => rw [textOf, patterned]
      | some pattern =>
          obtain ⟨given, asked⟩ := Option.filter_eq_some_iff.mp patterned
          obtain ⟨kind, nonempty⟩ := of_decide_eq_true asked
          rw [textOf, patterned]
          dsimp only
          rw [if_pos (undated kind pattern given nonempty)]
  · rintro rfl
    rw [textOf]
    cases patterned : f.dateFormat.filter fun pattern => f.kind = .date ∧ pattern ≠ "" with
    | none =>
        refine .displayed fun kind pattern given nonempty => ?_
        simp [Option.filter, given, kind, nonempty] at patterned
    | some pattern =>
        obtain ⟨given, asked⟩ := Option.filter_eq_some_iff.mp patterned
        obtain ⟨kind, nonempty⟩ := of_decide_eq_true asked
        dsimp only
        by_cases written : Moment.formatSource (.value v) pattern.toList = []
        · rw [if_pos written]
          refine .displayed fun _ other same _ => ?_
          rw [← Option.some.inj (given.symm.trans same), written]
        · rw [if_neg written]
          exact .date kind given nonempty written

namespace Document

variable {ε : Type} {d d' : Document} {h k : Handle} {f : Field} {v : Value} {texts : List Handle}

/-! ## Fields that are no texts -/

theorem sameContent_setVisible (d : Document) (h : Handle) (visible : Bool) :
    SameContent d (d.setVisible h visible) := by
  cases visible with
  | true =>
      exact ((SameContent.set d h "opacity" "1").trans (SameContent.set _ h "visibility" "visible")).trans
        (SameContent.remove _ h "display")
  | false =>
      exact ((SameContent.set d h "opacity" "0").trans (SameContent.set _ h "visibility" "hidden")).trans
        (SameContent.set _ h "display" "none")

theorem sameContent_setSource (d : Document) (h : Handle) (source : String) :
    SameContent d (d.setSource h source) := by
  unfold setSource
  split
  · exact .refl d
  · exact .set d h _ source

theorem sameContent_showOption (d : Document) (o : SelectOption) (chosen : Bool) :
    SameContent d (d.showOption o chosen) := by
  unfold showOption
  split
  · exact .refl d
  · split
    · exact sameContent_setVisible d _ true
    · exact (sameContent_setVisible d _ false).trans (.remove _ _ "style")

theorem sameContent_choose (d : Document) (options : List SelectOption) (value : String) :
    SameContent d (d.choose options value) := by
  unfold choose
  generalize options.zipIdx = numbered
  induction numbered generalizing d with
  | nil => exact .refl d
  | cons o rest ih => exact (sameContent_showOption d o.1 _).trans (ih _)

theorem sameContent_toggle (d : Document) (h : Handle) (f : Field) (checked : Bool) :
    SameContent d (d.toggle h f checked) := by
  unfold toggle
  split
  · exact sameContent_setVisible d h _
  · exact .refl d

theorem sameContent_image (d : Document) (h : Handle) (source : String) (gray : Option Bool) :
    SameContent d (if gray = some true then (d.setSource h source).setStyle h "filter" grayscaleFilter
      else d.setSource h source) := by
  split
  · exact (sameContent_setSource d h source).trans (.set _ h "style" _)
  · exact sameContent_setSource d h source

/-- What is no text writes attributes only. -/
theorem writeValue_of_not_textual (other : f.kind.isTextual = false) (m : FontGauge ε) (h : Handle)
    (v : Value) (width : Option Float) :
    ∃ d', d.writeValue m h f v width = .ok d' ∧ SameContent d d' := by
  unfold writeValue
  cases kind : f.kind with
  | static => exact ⟨d, rfl, .refl d⟩
  | select => exact ⟨_, rfl, sameContent_choose d _ _⟩
  | checkbox => exact ⟨_, rfl, sameContent_setVisible d h _⟩
  | upload => exact ⟨_, rfl, sameContent_image d h v.display f.grayscale⟩
  | file => exact ⟨_, rfl, sameContent_image d h v.display f.grayscale⟩
  | _ => simp [kind, Kind.isTextual] at other

/-- A text writes its value, unless that is nothing. -/
theorem writeValue_of_textual (textual : f.kind.isTextual = true) (m : FontGauge ε) (h : Handle)
    (v : Value) (width : Option Float) :
    v = .null ∧ d.writeValue m h f v width = .ok d ∨
      v ≠ .null ∧ d.writeValue m h f v width = d.layText m h (f.textOf v) width := by
  unfold writeValue
  cases kind : f.kind with
  | static | select | checkbox | upload | file => simp [kind, Kind.isTextual] at textual
  | _ =>
      cases v with
      | null => exact .inl ⟨rfl, rfl⟩
      | _ => exact .inr ⟨nofun, rfl⟩

/-! ## One field -/

/-- The elements of texts hang together with the root, and none of them is inside another. -/
structure Apart (d : Document) (texts : List Handle) : Prop where
  wellFormed : d.WellFormed
  attached : ∀ h ∈ texts, h ∈ d.handles
  apart : ∀ h ∈ texts, ∀ k ∈ texts, ¬ d.outline.Below h k

/-- A field was rendered at `h`: the elements of texts are where they were, all but `h` show what they
did, and `h` shows the value. -/
structure Rendered (texts : List Handle) (h : Handle) (f : Field) (v : Value) (d d' : Document) :
    Prop where
  apart : d'.Apart texts
  others : ∀ k ∈ texts, k ≠ h → SameBelow d d' k
  shows : f.kind.isTextual = true → v ≠ .null → d'.displayText h = shown (f.textOf v)

theorem Apart.changedAt (ready : d.Apart texts) (hh : h ∈ texts) (changed : ChangedAt h d d') :
    d'.Apart texts where
  wellFormed := changed.wellFormed
  attached := fun k hk => changed.keeps k (ready.attached k hk) (ready.apart h hh k hk)
  apart := by
    intro k hk l hl below
    have old := ready.wellFormed.lt_size (ready.attached l hl)
    exact ready.apart k hk l hl (changed.below k l old below)

theorem Apart.sameContent (ready : d.Apart texts) (content : SameContent d d') : d'.Apart texts where
  wellFormed := content.wellFormed ready.wellFormed
  attached := fun k hk => by
    rw [content.handles]
    exact ready.attached k hk
  apart := fun k hk l hl below => by
    rw [content.outline] at below
    exact ready.apart k hk l hl below

theorem Rendered.trans {d₁ d₂ d₃ : Document} (first : Rendered texts h f v d₁ d₂)
    (content : SameContent d₂ d₃) : Rendered texts h f v d₁ d₃ where
  apart := first.apart.sameContent content
  others := fun k hk other => (first.others k hk other).trans (content.sameBelow k)
  shows := fun textual given => by
    rw [(content.sameBelow h).displayText]
    exact first.shows textual given

theorem Rendered.of_sameContent (ready : d.Apart texts) (content : SameContent d d')
    (silent : ¬ (f.kind.isTextual = true ∧ v ≠ .null)) : Rendered texts h f v d d' where
  apart := ready.sameContent content
  others := fun k _ _ => content.sameBelow k
  shows := fun textual given => absurd ⟨textual, given⟩ silent

/-- The text of the value has several lines, and the font that the element has cannot be measured. -/
structure Unmeasured (m : FontGauge ε) (d : Document) (h : Handle) (f : Field) (v : Value) (why : ε) : Prop where
  textual : f.kind.isTextual = true
  given : v ≠ .null
  several : ∃ text, f.Writes v text ∧ '\n' ∈ text.toList
  fails : m.extent (d.font h).family (d.font h).size = .error why

theorem writeValue_spec (ready : d.Apart texts) (inside : f.kind.isTextual = true → h ∈ texts)
    (m : FontGauge ε) (v : Value) :
    (∃ d', d.writeValue m h f v none = .ok d' ∧ Rendered texts h f v d d') ∨
      ∃ why, d.Unmeasured m h f v why ∧ d.writeValue m h f v none = .error why := by
  cases textual : f.kind.isTextual with
  | false =>
      obtain ⟨d', written, content⟩ := writeValue_of_not_textual textual m h v none
      exact .inl ⟨d', written, .of_sameContent ready content (by simp [textual])⟩
  | true =>
      have hh := inside textual
      rcases writeValue_of_textual (d := d) textual m h v none with ⟨rfl, written⟩ | ⟨given, written⟩
      · exact .inl ⟨d, written, .of_sameContent ready (.refl d) (by simp)⟩
      · rw [written]
        rcases layText_spec ready.wellFormed (ready.attached h hh) m (f.textOf v) with
          ⟨d', made, changed, shows⟩ | ⟨newline, why, fails, failed⟩
        · refine .inl ⟨d', made, ready.changedAt hh changed, ?_, fun _ _ => shows⟩
          intro k hk other
          exact changed.same k (ready.attached k hk) other (ready.apart k hk h hh) (ready.apart h hh k hk)
        · exact .inr ⟨why, ⟨textual, given, ⟨_, Field.writes_iff.mpr rfl, newline⟩, fails⟩, failed⟩

/-- A field is found at `h` in whatever has become of the copy, and is not to be rotated. -/
structure Placed (identities : List (Handle × String)) (texts : List Handle) (h : Handle) (f : Field) :
    Prop where
  located : ∀ d : Document, d.locateField? identities f = some h
  unrotated : f.rotation = none
  inside : f.kind.isTextual = true → h ∈ texts

variable {m : FontGauge ε} {identities : List (Handle × String)} {filling : Filling}

theorem renderField_spec (ready : d.Apart texts) (placed : Placed identities texts h f)
    (unwrapped : filling.wrapWidths = []) (v : Value) :
    (∃ d', renderField m identities filling d f v = .ok d' ∧ Rendered texts h f v d d') ∨
      ∃ why, d.Unmeasured m h f v why ∧ renderField m identities filling d f v = .error (.measure why) := by
  by_cases fixed : f.kind = .static
  · refine .inl ⟨d, ?_, .of_sameContent ready (.refl d) (by simp [fixed, Kind.isTextual])⟩
    rw [renderField, if_pos fixed]
  · rcases writeValue_spec ready placed.inside m v with ⟨d', written, rendered⟩ | ⟨why, fails, failed⟩
    · refine .inl ⟨d'.toggle h f ((filling.toggles.lookup f.id).getD false), ?_,
        rendered.trans (sameContent_toggle d' h f _)⟩
      simp only [renderField, fixed, if_false, placed.located d, unwrapped, List.lookup_nil, written,
        Except.mapError, placed.unrotated, rotate, bind, Except.bind, pure, Except.pure]
    · refine .inr ⟨why, fails, ?_⟩
      simp only [renderField, fixed, if_false, placed.located d, unwrapped, List.lookup_nil, failed,
        Except.mapError, bind, Except.bind]

/-! ## All fields -/

/-- Renders fields with their values, in order. -/
def renderEach (m : FontGauge ε) (identities : List (Handle × String)) (filling : Filling)
    (fields : List (Field × Value)) (d : Document) : Except (RenderError ε) Document :=
  fields.foldlM (fun d (f, v) => renderField m identities filling d f v) d

theorem renderEach_cons (r : Field × Value) (fields : List (Field × Value)) (d : Document) :
    renderEach m identities filling (r :: fields) d =
      renderField m identities filling d r.1 r.2 >>= renderEach m identities filling fields := by
  rw [renderEach, List.foldlM_cons]
  rfl

/-- Rendering stops at the first field whose text cannot be written, with what the fields before it made. -/
def Stops (m : FontGauge ε) (identities : List (Handle × String)) (filling : Filling)
    (placed : List (Handle × Field × Value)) (d : Document) (why : ε) : Prop :=
  ∃ before h f v after mid, placed = before ++ (h, f, v) :: after ∧
    renderEach m identities filling (before.map Prod.snd) d = .ok mid ∧ mid.Unmeasured m h f v why

theorem Stops.cons {placed : List (Handle × Field × Value)} {why : ε} {r : Field × Value}
    (made : renderField m identities filling d r.1 r.2 = .ok d') (stops : Stops m identities filling placed d' why) :
    Stops m identities filling ((h, r) :: placed) d why := by
  obtain ⟨before, k, f, v, after, mid, rfl, done, unmeasured⟩ := stops
  refine ⟨(h, r) :: before, k, f, v, after, mid, rfl, ?_, unmeasured⟩
  rw [List.map_cons, renderEach_cons, made]
  exact done

/-- Each text shows its value after all fields are rendered, for no later field changes what it shows. -/
theorem renderEach_spec {handles : List Handle} {fields : List (Field × Value)}
    (unwrapped : filling.wrapWidths = [])
    (placed : List.Forall₂ (fun h r => Placed identities texts h r.1) handles fields)
    (distinct : handles.Nodup) (ready : d.Apart texts) :
    (∃ out, renderEach m identities filling fields d = .ok out ∧ out.Apart texts ∧
      (∀ k ∈ texts, k ∉ handles → SameBelow d out k) ∧
      List.Forall₂ (fun h r => r.1.kind.isTextual = true → r.2 ≠ .null →
        out.displayText h = shown (r.1.textOf r.2)) handles fields) ∨
    ∃ why, Stops m identities filling (handles.zip fields) d why ∧
      renderEach m identities filling fields d = .error (.measure why) := by
  -- No element of a text is above or below another throughout, so each field leaves the others alone.
  induction placed generalizing d with
  | nil => exact .inl ⟨d, rfl, ready, fun k _ _ => .refl d k, .nil⟩
  | @cons h r handles fields here _ ih =>
      obtain ⟨absent, distinct⟩ := List.nodup_cons.mp distinct
      rw [renderEach_cons]
      rcases renderField_spec ready here unwrapped r.2 with ⟨d', made, rendered⟩ | ⟨why, fails, failed⟩
      · rw [made]
        rcases ih distinct rendered.apart with ⟨out, done, apart, others, shows⟩ | ⟨why, stops, failed⟩
        · refine .inl ⟨out, done, apart, ?_, .cons ?_ shows⟩
          · intro k hk outside
            simp only [List.mem_cons, not_or] at outside
            exact (rendered.others k hk outside.1).trans (others k hk outside.2)
          · intro textual given
            rw [(others h (here.inside textual) absent).displayText]
            exact rendered.shows textual given
        · exact .inr ⟨why, .cons made stops, failed⟩
      · rw [failed]
        exact .inr ⟨why, ⟨[], h, r.1, r.2, _, d, rfl, rfl, fails⟩, rfl⟩

/-- The elements of the textual fields. -/
def textHandles (d : Document) (fs : List Field) : List Handle :=
  ((d.openers.zip fs).filter (·.2.kind.isTextual)).map (·.1.handle)

theorem mem_textHandles {fs : List Field} {c : Candidate} (paired : (c, f) ∈ d.openers.zip fs)
    (textual : f.kind.isTextual = true) : c.handle ∈ d.textHandles fs :=
  List.mem_map.mpr ⟨(c, f), List.mem_filter.mpr ⟨paired, textual⟩, rfl⟩

/-- A field of a document is placed where it starts. -/
theorem StartsAt.placed {fs : List Field} {c : Candidate} (start : d.StartsAt f c) (hd : d.WellFormed)
    (paired : (c, f) ∈ d.openers.zip fs) :
    Placed (d.copy.identities identityAttribute) (d.textHandles fs) c.handle f where
  located := locateField?_eq hd start
  unrotated := by
    obtain ⟨id, made⟩ := start.made
    rw [made, (c.field_spec _ id _).2]
  inside := mem_textHandles paired

theorem placed_of_starts {fields : List (Field × Value)} (hd : d.WellFormed)
    (starts : List.Forall₂ (fun c r => d.StartsAt r.1 c) d.openers fields) :
    List.Forall₂ (fun c r => Placed (d.copy.identities identityAttribute)
      (d.textHandles (fields.map Prod.fst)) c.handle r.1) d.openers fields := by
  obtain ⟨length, each⟩ := List.forall₂_iff_zip.mp starts
  refine List.forall₂_iff_zip.mpr ⟨length, fun {c r} mem => (each mem).placed hd ?_⟩
  rw [List.zip_map_right]
  exact List.mem_map.mpr ⟨(c, r), mem, rfl⟩

/-- A copy has the elements of the textual fields, as far apart as they are. -/
theorem apart_copy {fs : List Field} (hd : d.WellFormed)
    (starts : List.Forall₂ (fun c f => d.StartsAt f c) d.openers fs)
    (apart : ∀ h ∈ d.textHandles fs, ∀ k ∈ d.textHandles fs, h ∉ d.ancestors k) :
    d.copy.Apart (d.textHandles fs) where
  wellFormed := hd.copy
  attached := by
    intro h hh
    obtain ⟨⟨c, f⟩, mem, rfl⟩ := List.mem_map.mp hh
    have start := (List.forall₂_iff_zip.mp starts).2 (List.mem_filter.mp mem).1
    have attached : c.handle ∈ d.handles := eligible_subset (eligible_of_mem_candidates start.candidate)
    exact attached
  apart := fun h hh k hk below => apart h hh k hk (hd.mem_ancestors_iff.mpr below)

/-- Where the element of no textual field is inside that of another, every textual field shows its value
in the rendered document, unless its value is nothing. Rendering fails only at a value of several lines
whose element has, after the fields before it, a font that cannot be measured. -/
theorem render_shows {fs : List Field} (hd : d.Reachable)
    (parsed : d.fields placeholderPhrase = .ok fs)
    (apart : ∀ h ∈ d.textHandles fs, ∀ k ∈ d.textHandles fs, h ∉ d.ancestors k)
    (values : KnownValues) (toggles : List (String × Bool)) (m : FontGauge ε) (draws : Draws) :
    (Field.resolveAll fs values none draws).map Prod.fst = fs ∧
    List.Forall₂ (fun c r => d.StartsAt r.1 c) d.openers (Field.resolveAll fs values none draws) ∧
    ((∃ out, d.render fs { values, toggles } m identityAttribute draws = .ok out ∧
      List.Forall₂ (fun c (f, v) => f.kind.isTextual = true → c.handle ∈ out.handles ∧
        (v ≠ .null → ∃ text, f.Writes v text ∧ out.displayText c.handle = shown text))
        d.openers (Field.resolveAll fs values none draws)) ∨
    ∃ why, Stops m (d.copy.identities identityAttribute) { values, toggles }
        ((d.openers.map (·.handle)).zip (Field.resolveAll fs values none draws)) d.copy why ∧
      d.render fs { values, toggles } m identityAttribute draws = .error (.measure why)) := by
  have hwf := hd.wellFormed
  have all := Field.resolveAll_fst fs values draws
  have starts := fields_startsAt parsed
  have ready := apart_copy hwf starts apart
  rw [← all, List.forall₂_map_right_iff] at starts
  have placed := placed_of_starts hwf starts
  rw [all] at placed
  have unwrapped : ({ values, toggles } : Filling).wrapWidths = [] := rfl
  refine ⟨all, starts, ?_⟩
  rcases renderEach_spec (m := m) unwrapped (List.forall₂_map_left_iff.mpr placed)
    (handles_openers_nodup hwf) ready with ⟨out, done, still, _, shows⟩ | failed
  · rw [List.forall₂_map_left_iff] at shows
    refine .inl ⟨out, done, List.forall₂_iff_zip.mpr ⟨starts.length_eq, fun {c r} mem textual => ?_⟩⟩
    have inside := ((List.forall₂_iff_zip.mp placed).2 mem).inside textual
    exact ⟨still.attached c.handle inside, fun given =>
      ⟨_, Field.writes_iff.mpr rfl, (List.forall₂_iff_zip.mp shows).2 mem textual given⟩⟩
  · exact .inr failed

/-- A text of several lines and one of a single line inside an element that is a fixed field, an image, a second
text with the same id and a date. -/
def letter : Document :=
  ofTree (.node { name := "svg" } (.node { name := "g", attributes := [("id", "card")] }
    (.ofRoots [
      { name := "text", attributes := [("id", "greeting.textarea"), ("x", "10")], text := "Dear reader" },
      { name := "text", attributes := [("id", "name.text")], text := "A" }])
    (.ofRoots [{ name := "image", attributes := [("id", "photo.upload")] },
      { name := "text", attributes := [("id", "name.text")], text := "B" },
      { name := "text", attributes := [("id", "sent.date_format[DD/MM/YYYY]")], text := "today" }])) .nil)

def letterValues : KnownValues :=
  [("greeting", .text "Dear\n\nAda\u00a0!"), ("name", .text " Ada "), ("photo", .text "a.png"),
    ("sent", .text "2024-05-17")]

theorem letter_shows : ∃ fs out, letter.fields placeholderPhrase = .ok fs ∧
    letter.render fs { values := letterValues, toggles := [] } FontMetrics.noFiles.gauge identityAttribute
      (.cycling []) = .ok out ∧
    [2, 3, 5, 6].map out.displayText = ["Dear\nAda!", "Ada", "B", "17/05/2024"] ∧
    (Field.resolveAll fs letterValues none (.cycling [])).map Prod.fst = fs ∧
    List.Forall₂ (fun c r => letter.StartsAt r.1 c) letter.openers
      (Field.resolveAll fs letterValues none (.cycling [])) ∧
    List.Forall₂ (fun c (f, v) => f.kind.isTextual = true → c.handle ∈ out.handles ∧
      (v ≠ .null → ∃ text, f.Writes v text ∧ out.displayText c.handle = shown text))
      letter.openers (Field.resolveAll fs letterValues none (.cycling [])) := by
  have reachable : letter.Reachable := .tree _ (by decide)
  have apart : (letter.fields placeholderPhrase).toOption.map (fun fs =>
      decide (∀ h ∈ letter.textHandles fs, ∀ k ∈ letter.textHandles fs, h ∉ letter.ancestors k)) =
        some true := by decide
  have shows : (letter.fields placeholderPhrase).toOption.bind (fun fs =>
      (letter.render fs { values := letterValues, toggles := [] } FontMetrics.noFiles.gauge identityAttribute
        (.cycling [])).toOption.map fun out => [2, 3, 5, 6].map out.displayText) =
        some ["Dear\nAda!", "Ada", "B", "17/05/2024"] := by decide +kernel
  cases parsed : letter.fields placeholderPhrase with
  | error e => simp [parsed, Except.toOption] at apart
  | ok fs =>
      simp only [parsed, Except.toOption, Option.map_some, Option.some.injEq, decide_eq_true_eq] at apart
      simp only [parsed, Except.toOption, Option.bind_some] at shows
      obtain ⟨all, starts, ⟨out, done, each⟩ | ⟨_, _, failed⟩⟩ :=
        render_shows reachable parsed apart letterValues [] FontMetrics.noFiles.gauge (.cycling [])
      · rw [done, Option.map_some] at shows
        exact ⟨fs, out, rfl, done, Option.some.inj shows, all, starts, each⟩
      · rw [failed] at shows
        simp at shows

end Document

end SvgForm
