import SvgForm.Proofs.Document.Copy
import SvgForm.Proofs.Form.Partition
import SvgForm.Proofs.Render.Frame
/-! # Rendered choices

Rendering a select field shows the element of the chosen option and hides those of the others. The elements are
found by their ids, and the first one with an id is found for all options with it. So an option whose id is its
own, and no id of an element before it, is shown just if it is chosen.
-/

namespace SvgForm

namespace Document

variable {d d' : Document} {h s x : Handle} {visible : Bool}

/-! ## One select field -/

/-- The place of the option that a value chooses: that of the first one with this value, or else the first. -/
def chosenIndex (options : List SelectOption) (value : String) : Nat :=
  (options.findIdx? (·.value = value)).getD 0

/-- An element is visible, or it is not displayed. -/
def Shows (d : Document) (x : Handle) (visible : Bool) : Prop :=
  if visible then d.get? x "visibility" = some "visible" ∧ d.get? x "display" = none
  else d.get? x "display" = some "none"

theorem Shows.congr (shows : d.Shows x visible) (same : d'.element x = d.element x) : d'.Shows x visible := by
  simpa only [Shows, get?, same] using shows

theorem size_set (d : Document) (h : Handle) (name value : String) :
    (d.set h name value).elements.size = d.elements.size :=
  Array.size_modify

theorem shows_setVisible (hx : x < d.elements.size) (visible : Bool) :
    (d.setVisible x visible).Shows x visible := by
  have visibility : Xml.qualify "visibility" ≠ Xml.qualify "display" := by decide
  have first : ∀ name value, x < (d.set x name value).elements.size := by simp [size_set, hx]
  have second : ∀ name value name' value', x < ((d.set x name value).set x name' value').elements.size := by
    simp [size_set, hx]
  cases visible with
  | true => simp [Shows, setVisible, get?_remove (second ..), get?_set (first ..), visibility]
  | false => simp [Shows, setVisible, get?_set (second ..)]

theorem shows_showOption (hd : d.WellFormed) {o : SelectOption} (first : d.find? o.source ["id"] = some x)
    (chosen : Bool) : (d.showOption o chosen).Shows x chosen := by
  have hx := hd.lt_size (mem_handles_of_find? first)
  simp only [showOption, first]
  cases chosen with
  | true =>
      rw [if_pos rfl]
      exact shows_setVisible hx true
  | false =>
      rw [if_neg Bool.false_ne_true]
      have hidden := shows_setVisible (d := d) hx false
      have style : Xml.qualify "display" ≠ Xml.qualify "style" := by decide
      have size : x < (d.setVisible x false).elements.size := by simpa [setVisible, size_set] using hx
      simpa [Shows, get?_remove size, style] using hidden

/-- Where the options with an id are all chosen or all not, its element is shown or hidden like them. -/
theorem shows_options {numbered : List (SelectOption × Nat)} {chosen : Nat} {source : String}
    (hd : d.WellFormed) (first : d.find? source ["id"] = some x)
    (agree : ∀ p ∈ numbered, p.1.source = source → decide (p.2 = chosen) = visible)
    (there : d.Shows x visible ∨ ∃ p ∈ numbered, p.1.source = source) :
    (numbered.foldl (fun d (o, i) => d.showOption o (i = chosen)) d).Shows x visible := by
  -- Once one of these options had its turn the element is as it should be, and it is found again all along.
  induction numbered generalizing d with
  | nil => simpa using there
  | cons p rest ih =>
      have frame : Frame (fun y => d.find? p.1.source ["id"] = some y) (fun _ => False) d
          (d.showOption p.1 (p.2 = chosen)) := Frame.showOption hd p.1 _
      have still := frame.find?_of_first hd first fun _ => False.elim
      refine ih frame.wellFormed still (fun q mem => agree q (List.mem_cons_of_mem p mem)) ?_
      by_cases here : p.1.source = source
      · rw [← agree p List.mem_cons_self here]
        exact .inl (shows_showOption hd (here ▸ first) _)
      · rcases there with shows | ⟨q, mem, named⟩
        · refine .inl (shows.congr (frame.element x (hd.lt_size (mem_handles_of_find? first)) fun found => here ?_))
          exact Option.some.inj ((get?_of_find? found).symm.trans (get?_of_find? first))
        · refine .inr ⟨q, List.mem_of_ne_of_mem ?_ mem, named⟩
          rintro rfl
          exact here named

theorem shows_choose (hd : d.WellFormed) {options : List SelectOption} {i : Nat} {o : SelectOption}
    (listed : options[i]? = some o) (first : d.find? o.source ["id"] = some x)
    (alone : ∀ j p, options[j]? = some p → p.source = o.source → j = i) (value : String) :
    (d.choose options value).Shows x (i = chosenIndex options value) := by
  refine shows_options hd first (fun p mem named => ?_) (.inr ⟨(o, i), ?_, rfl⟩)
  · rw [alone p.2 p.1 (List.mem_zipIdx_iff_getElem?.mp mem) named]
    rfl
  · exact List.mk_mem_zipIdx_iff_getElem?.mpr listed

/-! ## Other fields -/

variable {ε : Type} {m : FontGauge ε} {identities : List (Handle × String)} {filling : Filling} {f g : Field} {v : Value}
  {texts : List Handle} {fs : List Field}

/-- A field is written elsewhere than into `x`. -/
structure Elsewhere (identities : List (Handle × String)) (texts : List Handle) (d : Document) (x : Handle)
    (f : Field) : Prop where
  placed : ∃ h ≠ x, Placed identities texts h f
  options : ∀ o ∈ f.options, d.get? x "id" ≠ some o.source

theorem frame_elsewhere {fields : List (Field × Value)} (hd : d.WellFormed)
    (placed : ∀ e ∈ identities, e.1 < d.elements.size)
    (elsewhere : ∀ r ∈ fields, Elsewhere identities texts d x r.1)
    (done : renderEach m identities filling fields d = .ok d') : Frame (· ≠ x) (· ∈ texts) d d' := by
  refine (frame_renderEach hd placed done).mono (fun y written => ?_) fun y written => ?_
  · obtain ⟨t, mem, written⟩ := written
    obtain ⟨⟨v, listed⟩, ids⟩ := mem_turns hd placed mem
    obtain ⟨⟨h, other, here⟩, options⟩ := elsewhere _ listed
    rintro rfl
    rw [writtenFor, here.located] at written
    split at written
    case isTrue => cases written
    case isFalse =>
      rcases List.mem_cons.mp written with rfl | option
      · exact other rfl
      · split at option
        case isFalse => cases option
        case isTrue =>
          obtain ⟨o, mem, found⟩ := mem_optionHandles.mp option
          exact options o mem ((ids y).symm.trans (get?_of_find? found))
  · obtain ⟨t, mem, textual, located⟩ := written
    obtain ⟨⟨v, listed⟩, -⟩ := mem_turns hd placed mem
    obtain ⟨⟨h, -, here⟩, -⟩ := elsewhere _ listed
    obtain rfl := Option.some.inj ((here.located t.2).symm.trans located)
    exact here.inside textual

/-! ## Choices of documents -/

theorem forall₂_starts (hd : d.WellFormed) (parsed : d.fields placeholderPhrase = .ok fs) :
    List.Forall₂ (fun h f => d.StartsAt f (d.candidate h)) (d.starts placeholderPhrase) fs := by
  have starts := fields_startsAt parsed
  rwa [openers, openers_eq hd, List.forall₂_map_left_iff] at starts

/-- Every field stands at an element. -/
theorem exists_start_of_mem (hd : d.WellFormed) (parsed : d.fields placeholderPhrase = .ok fs) (listed : f ∈ fs) :
    ∃ s, (s, f) ∈ (d.starts placeholderPhrase).zip fs := by
  have lengths := (forall₂_starts hd parsed).length_eq
  rw [← List.map_snd_zip (Nat.le_of_eq lengths.symm)] at listed
  obtain ⟨⟨s, _⟩, stands, rfl⟩ := List.mem_map.mp listed
  exact ⟨s, stands⟩

theorem placed_of_mem (hd : d.WellFormed) (parsed : d.fields placeholderPhrase = .ok fs)
    (stands : (h, f) ∈ (d.starts placeholderPhrase).zip fs) :
    Placed (d.copy.identities identityAttribute) (d.textHandles fs) h f := by
  refine ((List.forall₂_iff_zip.mp (forall₂_starts hd parsed)).2 stands).placed hd ?_
  rw [openers, openers_eq hd, List.zip_map_left]
  exact List.mem_map.mpr ⟨(h, f), stands, rfl⟩

/-- No two select fields stand for one base. -/
theorem eq_of_mem_group {y : Handle} (hs : s ∈ d.starts placeholderPhrase)
    (hh : h ∈ d.starts placeholderPhrase) (hy : y ∈ d.group placeholderPhrase s)
    (hx : x ∈ d.group placeholderPhrase h) (option : d.IsOption s) (option' : d.IsOption h)
    (same : d.sourceOf y = d.sourceOf x) : s = h := by
  have base : (d.identifierOf s).base = (d.identifierOf h).base := by
    rw [← (mem_group_iff.mp hy).2.2, ← (mem_group_iff.mp hx).2.2, identifierOf, identifierOf, same]
  have first := (mem_starts_iff.mp hs).2.resolve_left (not_not_intro option)
  have first' := (mem_starts_iff.mp hh).2.resolve_left (not_not_intro option')
  rw [group_congr base, first'] at first
  exact (Option.some.inj first).symm

theorem exists_getElem?_of_forall₂ {α β : Type} {R : α → β → Prop} {l : List α} {l' : List β} {i : Nat}
    {a : α} (related : List.Forall₂ R l l') (listed : l[i]? = some a) : ∃ b, l'[i]? = some b ∧ R a b := by
  induction related generalizing i with
  | nil => cases listed
  | cons first _ ih =>
      cases i with
      | zero =>
          obtain rfl := Option.some.inj listed
          exact ⟨_, rfl, first⟩
      | succ i => exact ih listed

/-- A field that stands elsewhere than at the select field of `x` is written elsewhere than into `x`. -/
theorem elsewhere_of_ne (hd : d.WellFormed) (parsed : d.fields placeholderPhrase = .ok fs)
    (stands : (s, g) ∈ (d.starts placeholderPhrase).zip fs) (hh : h ∈ d.starts placeholderPhrase)
    (option : d.IsOption h) (hx : x ∈ d.group placeholderPhrase h) (other : s ≠ h) :
    Elsewhere (d.copy.identities identityAttribute) (d.textHandles fs) d.copy x g where
  placed := by
    refine ⟨s, ?_, placed_of_mem hd parsed stands⟩
    rintro rfl
    have chooses := isOption_of_mem_group hx
    have own : s ∈ d.group placeholderPhrase s :=
      mem_group_iff.mpr ⟨(mem_group_iff.mp hx).1, chooses, rfl⟩
    exact other (eq_of_mem_group (List.of_mem_zip stands).1 hh own hx chooses option rfl)
  options := by
    intro o mem named
    have attached : x ∈ d.handles := (List.mem_filter.mp (mem_group_iff.mp hx).1).1
    have at_start := (List.forall₂_iff_zip.mp (fields_stand hd parsed).1).2 stands
    by_cases chooses : d.IsOption s
    · obtain ⟨i, listed⟩ := List.mem_iff_getElem?.mp mem
      obtain ⟨y, there, shown⟩ := exists_getElem?_of_forall₂ (at_start.choice chooses).2.flip listed
      rw [(simulates_copy hd).get? (.inl attached)] at named
      have same : d.sourceOf y = d.sourceOf x := by
        rw [← shown.source, sourceOf, named, Option.getD_some]
      exact other (eq_of_mem_group (List.of_mem_zip stands).1 hh (List.mem_of_getElem? there) hx chooses option
        same)
    · rw [(at_start.plain chooses).2] at mem
      cases mem

theorem renderField_select (placed : Placed identities texts h f) (select : f.kind = .select)
    (unhidden : f.hiddenWhen = none) (m : FontGauge ε) (filling : Filling) (d : Document) (v : Value) :
    renderField m identities filling d f v = .ok (d.choose f.options v.display) := by
  simp [renderField, select, placed.located, placed.unrotated, unhidden, writeValue, Except.mapError, rotate,
    toggle, Field.hides?, bind, Except.bind, pure, Except.pure]

theorem hiddenWhen_of_option (start : d.StartsAt f (d.candidate h)) (option : d.IsOption h) :
    f.hiddenWhen = none := by
  obtain ⟨id, rfl⟩ := start.made
  obtain ⟨o, made, -⟩ := shownBy_option? option
  rw [Candidate.field, made]
  rfl

theorem renderEach_append (before after : List (Field × Value)) (d : Document) :
    renderEach m identities filling (before ++ after) d =
      renderEach m identities filling before d >>= renderEach m identities filling after := by
  rw [renderEach, List.foldlM_append]
  rfl

/-- Where one select field is rendered among fields that are written elsewhere than into `x`, an element of one
of its options, the select field decides. -/
theorem shows_renderEach {before after : List (Field × Value)} {i : Nat} {o : SelectOption} (hd : d.WellFormed)
    (identified : ∀ e ∈ identities, e.1 < d.elements.size) (placed : Placed identities texts h f)
    (select : f.kind = .select) (unhidden : f.hiddenWhen = none)
    (elsewhere : ∀ r ∈ before ++ after, Elsewhere identities texts d x r.1)
    (listed : f.options[i]? = some o) (first : d.find? o.source ["id"] = some x)
    (alone : ∀ j p, f.options[j]? = some p → p.source = o.source → j = i)
    (outside : ∀ k ∈ texts, ¬ d.outline.Below k x)
    (done : renderEach m identities filling (before ++ (f, v) :: after) d = .ok d') :
    x ∈ d'.handles ∧ d'.Shows x (i = chosenIndex f.options v.display) := by
  have hx := mem_handles_of_find? first
  simp only [renderEach_append, renderEach_cons, except_bind_ok, renderField_select placed select unhidden] at done
  obtain ⟨d₁, earlier, d₂, chosen, later⟩ := done
  obtain rfl := Except.ok.inj chosen
  have lead := frame_elsewhere hd identified
    (fun r mem => elsewhere r (List.mem_append_left after mem)) earlier
  have middle : Frame (· ∈ d₁.optionHandles f.options) (· ∈ texts) d₁ (d₁.choose f.options v.display) :=
    Frame.choose lead.wellFormed f.options v.display
  have grows := Nat.le_trans lead.grows middle.grows
  have still : ∀ r ∈ after, Elsewhere identities texts (d₁.choose f.options v.display) x r.1 := by
    intro r mem
    obtain ⟨there, options⟩ := elsewhere r (List.mem_append_right before mem)
    refine ⟨there, fun o mem => ?_⟩
    rw [middle.get?_id, lead.get?_id]
    exact options o mem
  have last := frame_elsewhere middle.wellFormed
    (fun e mem => Nat.lt_of_lt_of_le (identified e mem) grows) still later
  have whole : Frame (fun _ => True) (· ∈ texts) d d' :=
    ((lead.mono (fun _ _ => trivial) fun _ => id).trans hd
      (middle.mono (fun _ _ => trivial) fun _ => id)).trans hd (last.mono (fun _ _ => trivial) fun _ => id)
  have shows := shows_choose lead.wellFormed listed (lead.find?_of_first hd first outside) alone v.display
  have unwritten := last.element x (Nat.lt_of_lt_of_le (hd.lt_size hx) grows) (not_not_intro rfl)
  exact ⟨whole.keeps x hx outside, shows.congr unwritten⟩

variable {draws : Draws}

/-- The fields that are rendered before and after one are other fields. -/
theorem mem_of_resolveAll_eq {before after : List (Field × Value)} {values : KnownValues}
    {changed : Option (List String)} (distinct : (fs.map (·.id)).Nodup)
    (parts : Field.resolveAll fs values changed draws = before ++ (f, v) :: after) :
    ∀ r ∈ before ++ after, r.1 ∈ fs ∧ r.1 ≠ f := by
  have rendered := Field.map_fst_resolveAll fs values changed draws
  have different : ((Field.resolveAll fs values changed draws).map Prod.fst).Nodup := by
    rw [rendered]
    exact distinct.of_map.filter _
  rw [parts, List.map_append, List.map_cons] at different
  obtain ⟨absent, -⟩ := List.nodup_cons.mp (List.nodup_middle.mp different)
  rw [← List.map_append] at absent
  intro r mem
  constructor
  · have resolved : r ∈ Field.resolveAll fs values changed draws := by
      rw [parts]
      exact List.mem_append.mpr ((List.mem_append.mp mem).imp_right (List.mem_cons_of_mem _))
    have listed := List.mem_map_of_mem (f := Prod.fst) resolved
    rw [rendered] at listed
    exact (List.mem_filter.mp listed).1
  · rintro rfl
    exact absent (List.mem_map.mpr ⟨r, mem, rfl⟩)

theorem elsewhere_of_resolveAll_eq {before after : List (Field × Value)} {values : KnownValues}
    {changed : Option (List String)} (hd : d.WellFormed) (parsed : d.fields placeholderPhrase = .ok fs)
    (stands : (h, f) ∈ (d.starts placeholderPhrase).zip fs) (option : d.IsOption h)
    (hx : x ∈ d.group placeholderPhrase h)
    (parts : Field.resolveAll fs values changed draws = before ++ (f, v) :: after) :
    ∀ r ∈ before ++ after,
      Elsewhere (d.copy.identities identityAttribute) (d.textHandles fs) d.copy x r.1 := by
  obtain ⟨at_starts, ids⟩ := fields_stand hd parsed
  intro r mem
  obtain ⟨listed, different⟩ := mem_of_resolveAll_eq (by rw [ids]; exact d.fieldIds_nodup _) parts r mem
  obtain ⟨s, there⟩ := exists_start_of_mem hd parsed listed
  refine elsewhere_of_ne hd parsed there (List.of_mem_zip stands).1 option hx ?_
  rintro rfl
  have distinct : (d.starts placeholderPhrase).Nodup := (hd.handles_nodup.filter _).filter _
  rw [← List.map_fst_zip (Nat.le_of_eq at_starts.length_eq)] at distinct
  exact different (congrArg Prod.snd (List.inj_on_of_nodup_map distinct there stands rfl))

/-- In a rendered document the element of the chosen option is visible and those of the others are not
displayed, if they are the first with their ids, no other option has them, and they are not inside an element
which a text is written into. -/
theorem render_choice {out : Document} (hd : d.Reachable) (parsed : d.fields placeholderPhrase = .ok fs)
    (returned : d.render fs filling m identityAttribute draws = .ok out)
    (stands : (h, f) ∈ (d.starts placeholderPhrase).zip fs) (select : f.kind = .select)
    (resolved : (f, v) ∈ Field.resolveAll fs filling.values filling.changed draws) :
    List.Forall₂ d.ShownBy (d.group placeholderPhrase h) f.options ∧
      ∀ i x, (d.group placeholderPhrase h)[i]? = some x → d.find? (d.sourceOf x) ["id"] = some x →
        (∀ y ∈ d.group placeholderPhrase h, d.sourceOf y = d.sourceOf x → y = x) →
        (∀ k ∈ d.textHandles fs, k ∉ d.ancestors x) →
        x ∈ out.handles ∧ out.Shows x (i = chosenIndex f.options v.display) := by
  have hwf := hd.wellFormed
  have at_start := (List.forall₂_iff_zip.mp (fields_stand hwf parsed).1).2 stands
  have option : d.IsOption h := by
    by_contra plain
    exact (at_start.plain plain).1 select
  have options := (at_start.choice option).2
  have unhidden := hiddenWhen_of_option ((List.forall₂_iff_zip.mp (forall₂_starts hwf parsed)).2 stands) option
  refine ⟨options, fun i x member first alone outside => ?_⟩
  obtain ⟨o, listed, shown⟩ := exists_getElem?_of_forall₂ options member
  obtain ⟨before, after, parts⟩ := List.append_of_mem resolved
  -- Every other field is written elsewhere, whichever are rendered before and after.
  have elsewhere := elsewhere_of_resolveAll_eq hwf parsed stands option (List.mem_of_getElem? member) parts
  have done : renderEach m (d.copy.identities identityAttribute) filling (before ++ (f, v) :: after) d.copy =
      .ok out := by
    rw [← parts]
    exact returned
  have found : d.copy.find? o.source ["id"] = some x := by
    rw [(simulates_copy hwf).find?, shown.source]
    exact first
  have single : ∀ j p, f.options[j]? = some p → p.source = o.source → j = i := by
    intro j p listed' same
    obtain ⟨y, member', shown'⟩ := exists_getElem?_of_forall₂ options.flip listed'
    obtain rfl := alone y (List.mem_of_getElem? member') (by rw [← shown'.source, same, shown.source])
    have within := (List.getElem?_eq_some_iff.mp member').1
    have distinct : (d.group placeholderPhrase h).Nodup := (hwf.handles_nodup.filter _).filter _
    exact (List.getElem?_inj within distinct).mp (member'.trans member.symm)
  exact shows_renderEach hwf.copy (fun _ => hwf.copy.lt_size_of_mem_identities) (placed_of_mem hwf parsed stands)
    select unhidden elsewhere listed found single
    (fun k text below => outside k text (hwf.mem_ancestors_iff.mpr below)) done

def largeSize : Filling := { values := [("size", .text "large")] }

theorem choices_large : ∃ fs out f v, choices.fields placeholderPhrase = .ok fs ∧
    choices.render fs largeSize FontMetrics.noFiles.gauge identityAttribute (.cycling []) = .ok out ∧
    (4, f) ∈ (choices.starts placeholderPhrase).zip fs ∧ f.kind = .select ∧
    (f, v) ∈ Field.resolveAll fs largeSize.values largeSize.changed (.cycling []) ∧
    chosenIndex f.options v.display = 1 ∧ List.Forall₂ choices.ShownBy [4, 6] f.options ∧
    out.Shows 4 false ∧ out.Shows 6 true := by
  have reachable : choices.Reachable := .tree _ (by decide)
  have rendered : (choices.fields placeholderPhrase).toOption.bind (fun fs =>
      (choices.render fs largeSize FontMetrics.noFiles.gauge identityAttribute (.cycling [])).toOption.map fun _ =>
        ((Field.resolveAll fs largeSize.values none (.cycling [])).map fun r =>
          (r.1.kind, chosenIndex r.1.options r.2.display), choices.textHandles fs)) =
      some ([(.text, 0), (.text, 0), (.select, 1), (.text, 0)], [2, 3, 5]) := by decide +kernel
  obtain ⟨fs, parsed, rendered⟩ := Option.bind_eq_some_iff.mp rendered
  obtain ⟨out, done, rendered⟩ := Option.map_eq_some_iff.mp rendered
  obtain ⟨rows, texts⟩ := Prod.mk.inj rendered
  simp only [List.map_eq_cons_iff, Prod.mk.injEq] at rows
  obtain ⟨⟨a, _⟩, _, resolved, -, ⟨b, _⟩, _, rfl, -, ⟨f, v⟩, rest, rfl, ⟨select, chosen⟩, -⟩ := rows
  have all := Field.resolveAll_fst fs largeSize.values (.cycling [])
  rw [resolved] at all
  have stands : (4, f) ∈ (choices.starts placeholderPhrase).zip fs := by
    have starts : choices.starts placeholderPhrase = [2, 3, 4, 5] := by decide
    rw [starts, ← all]
    simp
  have member : (f, v) ∈ Field.resolveAll fs largeSize.values none (.cycling []) := by
    rw [resolved]
    simp
  obtain ⟨shown, each⟩ := render_choice reachable (ok_of_toOption parsed) (ok_of_toOption done) stands select
    member
  have group : choices.group placeholderPhrase 4 = [4, 6] := by decide
  rw [group] at shown
  rw [chosen, texts, group] at each
  exact ⟨fs, out, f, v, ok_of_toOption parsed, ok_of_toOption done, stands, select, member, chosen, shown,
    (each 0 4 rfl (by decide) (by decide) (by decide)).2, (each 1 6 rfl (by decide) (by decide) (by decide)).2⟩

/-- Two options with one id. -/
def sameIds : Document :=
  ofTree (.node { name := "svg" } (.ofRoots [
    { name := "text", attributes := [("id", "size.select_s")], text := "Small" },
    { name := "text", attributes := [("id", "size.select_s")], text := "Large" }]) .nil)

/-- Without a value the first of two options with one id is chosen, but its element is hidden with the other
one's. -/
theorem sameIds_hide_choice : ¬ ∀ (d : Document) (fs : List Field) (values : KnownValues) (m : FontMetrics)
    (draws : Draws) (out : Document) (h : Handle) (f : Field) (v : Value), d.Reachable →
      d.fields placeholderPhrase = .ok fs → d.render fs { values } m.gauge identityAttribute draws = .ok out →
      (h, f) ∈ (d.starts placeholderPhrase).zip fs → f.kind = .select →
      (f, v) ∈ Field.resolveAll fs values none draws →
      ∀ i x, (d.group placeholderPhrase h)[i]? = some x → (∀ k ∈ d.textHandles fs, k ∉ d.ancestors x) →
        out.Shows x (i = chosenIndex f.options v.display) := by
  intro shows
  have reachable : sameIds.Reachable := .tree _ (by decide)
  have rendered : (sameIds.fields placeholderPhrase).toOption.bind (fun fs =>
      (sameIds.render fs { values := [] } FontMetrics.noFiles.gauge identityAttribute (.cycling [])).toOption.map fun out =>
        ((Field.resolveAll fs [] none (.cycling [])).map fun r =>
          (r.1.kind, chosenIndex r.1.options r.2.display), sameIds.textHandles fs, out.get? 1 "display")) =
      some ([(.select, 0)], [], some "none") := by decide +kernel
  obtain ⟨fs, parsed, rendered⟩ := Option.bind_eq_some_iff.mp rendered
  obtain ⟨out, done, rendered⟩ := Option.map_eq_some_iff.mp rendered
  simp only [Prod.mk.injEq, List.map_eq_singleton_iff] at rendered
  obtain ⟨⟨⟨f, v⟩, resolved, select, first⟩, texts, hidden⟩ := rendered
  have all := Field.resolveAll_fst fs [] (.cycling [])
  rw [resolved] at all
  have stands : (1, f) ∈ (sameIds.starts placeholderPhrase).zip fs := by
    have starts : sameIds.starts placeholderPhrase = [1] := by decide
    rw [starts, ← all]
    exact List.mem_cons_self
  have member : (f, v) ∈ Field.resolveAll fs [] none (.cycling []) := by
    rw [resolved]
    exact List.mem_cons_self
  have shown := shows sameIds fs [] .noFiles (.cycling []) out 1 f v reachable (ok_of_toOption parsed)
    (ok_of_toOption done) stands select member 0 1 (by decide) (by simp [texts])
  have visible : out.get? 1 "display" = none := by
    rw [first] at shown
    exact shown.2
  rw [hidden] at visible
  cases visible

end Document

end SvgForm
