import SvgForm.Proofs.Xml.Change
/-! # The order of attributes

A new attribute comes last, and one that is removed and set again goes to the end. So the same changes of an
element made twice may leave its attributes in another order than the first time; `Unsettled` says when.
-/

namespace SvgForm.Xml

namespace Change

variable {c : Change} {cs : List Change} {l m : List (String × String)}

/-! ## Names of attributes -/

theorem mem_names_setAttribute {a b u : String} :
    a ∈ (setAttribute b u l).map Prod.fst ↔ a = b ∨ a ∈ l.map Prod.fst := by
  induction l with
  | nil => simp [setAttribute]
  | cons entry l ih =>
      rw [setAttribute]
      split
      case isTrue here => simp [← here]
      case isFalse => simp [ih, or_left_comm]

theorem mem_setAttribute {a : String × String} {name value : String} (mem : a ∈ setAttribute name value l) :
    a ∈ l ∨ a = (name, value) := by
  induction l with
  | nil => exact .inr (List.mem_singleton.mp mem)
  | cons first rest ih =>
      obtain ⟨n, v⟩ := first
      rw [setAttribute] at mem
      split at mem
      case isTrue same =>
        rcases List.mem_cons.mp mem with rfl | later
        · exact .inr (by rw [same])
        · exact .inl (List.mem_cons_of_mem _ later)
      case isFalse =>
        rcases List.mem_cons.mp mem with rfl | later
        · exact .inl List.mem_cons_self
        · exact (ih later).imp_left (List.mem_cons_of_mem _)

theorem nodup_setAttribute {name value : String} (distinct : (l.map Prod.fst).Nodup) :
    ((setAttribute name value l).map Prod.fst).Nodup := by
  induction l with
  | nil => exact List.nodup_singleton name
  | cons first rest ih =>
      obtain ⟨n, v⟩ := first
      obtain ⟨absent, distinct⟩ := List.nodup_cons.mp distinct
      rw [setAttribute]
      split
      case isTrue => exact List.nodup_cons.mpr ⟨absent, distinct⟩
      case isFalse other =>
        refine List.nodup_cons.mpr ⟨fun mem => ?_, ih distinct⟩
        rcases mem_names_setAttribute.mp mem with same | there
        · exact other same
        · exact absent there

theorem mem_names_filter {a b : String} :
    a ∈ (l.filter (·.1 ≠ b)).map Prod.fst ↔ a ∈ l.map Prod.fst ∧ a ≠ b := by
  constructor
  · intro mem
    obtain ⟨entry, inside, rfl⟩ := List.mem_map.mp mem
    obtain ⟨inside, other⟩ := List.mem_filter.mp inside
    exact ⟨List.mem_map_of_mem inside, by simpa using other⟩
  · rintro ⟨mem, other⟩
    obtain ⟨entry, inside, rfl⟩ := List.mem_map.mp mem
    exact List.mem_map_of_mem (List.mem_filter.mpr ⟨inside, by simpa using other⟩)

theorem mem_names_attributes {a : String} (mem : a ∈ l.map Prod.fst) (kept : .remove a ≠ c) :
    a ∈ (c.attributes l).map Prod.fst := by
  cases c with
  | text s => exact mem
  | set b u => exact mem_names_setAttribute.mpr (.inr mem)
  | remove b =>
      refine mem_names_filter.mpr ⟨mem, ?_⟩
      rintro rfl
      exact kept rfl

theorem mem_names_attributesAfter {a : String} (kept : .remove a ∉ cs)
    (mem : (∃ w, .set a w ∈ cs) ∨ a ∈ l.map Prod.fst) : a ∈ (attributesAfter cs l).map Prod.fst := by
  induction cs generalizing l with
  | nil => exact mem.resolve_left (by simp)
  | cons c cs ih =>
      rw [List.mem_cons, not_or] at kept
      refine ih kept.2 ?_
      rcases mem with ⟨w, here⟩ | there
      · rcases List.mem_cons.mp here with rfl | later
        · exact .inr (mem_names_setAttribute.mpr (.inl rfl))
        · exact .inl ⟨w, later⟩
      · exact .inr (mem_names_attributes there kept.1)

theorem setAttribute_append_of_mem {b u : String} {m : List (String × String)}
    (mem : b ∈ l.map Prod.fst) : setAttribute b u (l ++ m) = setAttribute b u l ++ m := by
  induction l with
  | nil => simp at mem
  | cons entry l ih =>
      rw [List.cons_append, setAttribute, setAttribute]
      split
      case isTrue => rfl
      case isFalse other =>
        rw [List.map_cons, List.mem_cons] at mem
        rw [ih (mem.resolve_left (Ne.symm other)), List.cons_append]

theorem setAttribute_append_of_not_mem {b u : String} {m : List (String × String)}
    (absent : b ∉ l.map Prod.fst) : setAttribute b u (l ++ m) = l ++ setAttribute b u m := by
  induction l with
  | nil => rfl
  | cons entry l ih =>
      rw [List.map_cons, List.mem_cons, not_or] at absent
      rw [List.cons_append, setAttribute, if_neg (Ne.symm absent.1), ih absent.2, List.cons_append]

theorem setAttribute_setAttribute (b u w : String) (l : List (String × String)) :
    setAttribute b w (setAttribute b u l) = setAttribute b w l := by
  induction l with
  | nil => simp [setAttribute]
  | cons entry l ih =>
      by_cases here : entry.1 = b
      · simp [setAttribute, here]
      · simp [setAttribute, here, ih]

/-- Attributes of which one is there already can be set in any order. -/
theorem setAttribute_comm {b c u w : String} (other : c ≠ b) (mem : c ∈ l.map Prod.fst) :
    setAttribute c w (setAttribute b u l) = setAttribute b u (setAttribute c w l) := by
  induction l with
  | nil => simp at mem
  | cons entry l ih =>
      rw [List.map_cons, List.mem_cons] at mem
      by_cases isB : entry.1 = b
      · simp [setAttribute, isB, Ne.symm other]
      · by_cases isC : entry.1 = c
        · simp [setAttribute, isC, other]
        · simp [setAttribute, isB, isC, ih (mem.resolve_left (Ne.symm isC))]

theorem filter_setAttribute_of_pos {p : String → Bool} {b u : String} (kept : p b = true) :
    (setAttribute b u l).filter (fun entry => p entry.1) =
      setAttribute b u (l.filter fun entry => p entry.1) := by
  induction l with
  | nil => simp [setAttribute, kept]
  | cons entry l ih =>
      by_cases here : entry.1 = b
      · simp [setAttribute, here, kept]
      · cases pe : p entry.1 <;> simp [setAttribute, here, pe, ih]

theorem filter_setAttribute_of_neg {p : String → Bool} {b u : String} (dropped : p b = false) :
    (setAttribute b u l).filter (fun entry => p entry.1) = l.filter fun entry => p entry.1 := by
  induction l with
  | nil => simp [setAttribute, dropped]
  | cons entry l ih =>
      by_cases here : entry.1 = b
      · simp [setAttribute, here, dropped]
      · cases pe : p entry.1 <;> simp [setAttribute, here, pe, ih]

/-! ## What is removed later does not matter -/

theorem attributesAfter_congr {m : List (String × String)}
    (same : l.filter (fun entry => .remove entry.1 ∉ cs) = m.filter fun entry => .remove entry.1 ∉ cs) :
    attributesAfter cs l = attributesAfter cs m := by
  induction cs generalizing l m with
  | nil =>
      simp only [List.not_mem_nil, not_false_eq_true, decide_true, List.filter_true] at same
      exact same
  | cons c cs ih =>
      refine ih (l := c.attributes l) (m := c.attributes m) ?_
      cases c with
      | text s => simpa [attributes] using same
      | set b u =>
          simp only [List.mem_cons, reduceCtorEq, false_or] at same
          cases later : decide (.remove b ∉ cs) with
          | true =>
              have kept := fun k => filter_setAttribute_of_pos (l := k)
                (p := fun a => decide (.remove a ∉ cs)) (b := b) (u := u) later
              rw [attributes, attributes, kept, kept, same]
          | false =>
              have dropped := fun k => filter_setAttribute_of_neg (l := k)
                (p := fun a => decide (.remove a ∉ cs)) (b := b) (u := u) later
              rw [attributes, attributes, dropped, dropped, same]
      | remove b =>
          simp only [attributes, List.filter_filter]
          simpa [not_or, Bool.and_comm] using same

theorem attributesAfter_filter (cs : List Change) (l : List (String × String)) :
    attributesAfter cs (l.filter fun entry => .remove entry.1 ∉ cs) = attributesAfter cs l :=
  attributesAfter_congr (by simp [List.filter_filter])

theorem filter_of_gone (gone : ∀ a ∈ l.map Prod.fst, .remove a ∈ cs) :
    l.filter (fun entry => .remove entry.1 ∉ cs) = [] := by
  refine List.filter_eq_nil_iff.mpr fun entry mem => ?_
  simpa using gone entry.1 (List.mem_map_of_mem mem)

/-- An attribute that is there in the end, and was not at the start, was set after it was last removed. -/
theorem exists_last_set {a : String} (mem : a ∈ (attributesAfter cs []).map Prod.fst) :
    ∃ before v after, cs = before ++ .set a v :: after ∧ .remove a ∉ after := by
  induction cs using List.reverseRecOn with
  | nil => simp [attributesAfter] at mem
  | append_singleton cs c ih =>
      rw [attributesAfter_concat] at mem
      cases c with
      | text s =>
          obtain ⟨before, v, after, rfl, kept⟩ := ih mem
          exact ⟨before, v, after ++ [.text s], by simp, by simpa using kept⟩
      | set b u =>
          rcases mem_names_setAttribute.mp mem with rfl | mem
          · exact ⟨cs, u, [], rfl, List.not_mem_nil⟩
          · obtain ⟨before, v, after, rfl, kept⟩ := ih mem
            exact ⟨before, v, after ++ [.set b u], by simp, by simpa using kept⟩
      | remove b =>
          obtain ⟨inside, other⟩ := mem_names_filter.mp mem
          obtain ⟨before, v, after, rfl, kept⟩ := ih inside
          exact ⟨before, v, after ++ [.remove b], by simp, by simpa [kept] using other⟩

/-! ## Attributes that are never removed -/

theorem setAttribute_after {b u : String} (sets : ∀ a, .remove a ∉ cs)
    (there : ∀ a w, .set a w ∈ cs → a ∈ l.map Prod.fst) :
    setAttribute b u (attributesAfter cs (setAttribute b u l)) =
      setAttribute b u (attributesAfter cs l) := by
  induction cs generalizing l with
  | nil => exact setAttribute_setAttribute b u u l
  | cons c cs ih =>
      have sets' : ∀ a, .remove a ∉ cs := fun a mem => sets a (List.mem_cons_of_mem c mem)
      cases c with
      | text s => exact ih sets' fun a w mem => there a w (List.mem_cons_of_mem _ mem)
      | remove a => exact absurd List.mem_cons_self (sets a)
      | set a w =>
          change setAttribute b u (attributesAfter cs (setAttribute a w (setAttribute b u l))) =
            setAttribute b u (attributesAfter cs (setAttribute a w l))
          by_cases same : a = b
          · rw [same, setAttribute_setAttribute]
          · have next : ∀ c v, .set c v ∈ cs → c ∈ (setAttribute a w l).map Prod.fst := fun c v mem =>
              mem_names_setAttribute.mpr (.inr (there c v (List.mem_cons_of_mem _ mem)))
            rw [setAttribute_comm same (there a w List.mem_cons_self), ih sets' next]

theorem forall_names_attributesAfter {p : String → Prop} (given : ∀ a ∈ l.map Prod.fst, p a)
    (made : ∀ a w, .set a w ∈ cs → p a) : ∀ a ∈ (attributesAfter cs l).map Prod.fst, p a := by
  induction cs generalizing l with
  | nil => exact given
  | cons c cs ih =>
      refine ih ?_ fun a w mem => made a w (List.mem_cons_of_mem c mem)
      intro a mem
      cases c with
      | text s => exact given a mem
      | set b u =>
          rcases mem_names_setAttribute.mp mem with rfl | mem
          · exact made a u List.mem_cons_self
          · exact given a mem
      | remove b => exact given a (mem_names_filter.mp mem).1

/-- Setting attributes again, without removing any, changes nothing. -/
theorem attributesAfter_twice_of_sets (sets : ∀ a, .remove a ∉ cs) :
    attributesAfter cs (attributesAfter cs l) = attributesAfter cs l := by
  induction cs using List.reverseRecOn with
  | nil => rfl
  | append_singleton cs c ih =>
      have sets' : ∀ a, .remove a ∉ cs := fun a mem => sets a (List.mem_append_left _ mem)
      rw [attributesAfter_concat, attributesAfter_concat]
      cases c with
      | text s => exact ih sets'
      | remove a => exact absurd (by simp) (sets a)
      | set b u =>
          have there : ∀ a w, .set a w ∈ cs → a ∈ (attributesAfter cs l).map Prod.fst :=
            fun a w mem => mem_names_attributesAfter (sets' a) (.inl ⟨w, mem⟩)
          simp only [attributes]
          rw [setAttribute_after sets' there, ih sets']

/-! ## The same changes again -/

/-- Whether a change sets or removes one of the chosen attributes. -/
def concerns (chosen : String → Bool) : Change → Bool
  | text _ => false
  | set name _ | remove name => chosen name

variable {chosen : String → Bool}

theorem attributes_append_of_concerns (concerned : concerns chosen c = true)
    (hl : ∀ a ∈ l.map Prod.fst, chosen a = false) : c.attributes (l ++ m) = l ++ c.attributes m := by
  cases c with
  | text s => cases concerned
  | set b u =>
      refine setAttribute_append_of_not_mem fun mem => ?_
      rw [concerns, hl b mem] at concerned
      cases concerned
  | remove b =>
      have apart : l.filter (·.1 ≠ b) = l := by
        refine List.filter_eq_self.mpr fun entry mem => ?_
        rw [decide_eq_true_eq]
        rintro rfl
        rw [concerns, hl entry.1 (List.mem_map_of_mem mem)] at concerned
        cases concerned
      rw [attributes, attributes, List.filter_append, apart]

theorem forall_names_attributes {p : String → Prop} (given : ∀ a ∈ l.map Prod.fst, p a)
    (made : ∀ a w, c = .set a w → p a) : ∀ a ∈ (c.attributes l).map Prod.fst, p a := by
  have one : c.attributes l = attributesAfter [c] l := rfl
  rw [one]
  exact forall_names_attributesAfter given fun a w mem => made a w (List.mem_singleton.mp mem).symm

/-- Wherever an attribute that is not chosen, and new to `l`, is set for the first time, the chosen ones that
come of `m` by then are removed later. -/
def Orderly (chosen : String → Bool) (cs : List Change) (l m : List (String × String)) : Prop :=
  ∀ before b u after, cs = before ++ .set b u :: after → chosen b = false → b ∉ l.map Prod.fst →
    (∀ w, .set b w ∉ before) →
    ∀ a ∈ (attributesAfter (before.filter (concerns chosen)) m).map Prod.fst, .remove a ∈ after

theorem Orderly.tail {l' m' : List (String × String)} (orderly : Orderly chosen (c :: cs) l m)
    (names : ∀ b, chosen b = false → b ∉ l'.map Prod.fst → b ∉ l.map Prod.fst ∧ ∀ w, .set b w ≠ c)
    (rest : m' = if concerns chosen c = true then c.attributes m else m) : Orderly chosen cs l' m' := by
  intro before b u after eq others new first
  obtain ⟨older, differs⟩ := names b others new
  have later := orderly (c :: before) b u after (by rw [eq]; rfl) others older fun w mem =>
    (List.mem_cons.mp mem).elim (differs w) (first w)
  rw [rest]
  cases concerned : concerns chosen c with
  | true => rwa [List.filter_cons_of_pos concerned] at later
  | false => rwa [List.filter_cons_of_neg (by simp [concerned])] at later

/-- Where all that stands last goes later, it does not matter whether a new attribute is put after it. -/
theorem attributesAfter_append_new {b u : String} (absent : b ∉ l.map Prod.fst)
    (absent' : b ∉ m.map Prod.fst) (gone : ∀ a ∈ m.map Prod.fst, .remove a ∈ cs) :
    attributesAfter cs (setAttribute b u (l ++ m)) = attributesAfter cs (setAttribute b u l ++ m) := by
  have both : b ∉ (l ++ m).map Prod.fst := by
    rw [List.map_append, List.mem_append, not_or]
    exact ⟨absent, absent'⟩
  have last := setAttribute_append_of_not_mem (u := u) (m := []) both
  have first := setAttribute_append_of_not_mem (u := u) (m := []) absent
  rw [List.append_nil] at last first
  rw [last, first]
  refine attributesAfter_congr ?_
  simp only [List.filter_append, filter_of_gone gone, List.append_nil]

/-- Where the chosen attributes stand after all others, orderly changes can be made to the two apart. -/
theorem attributesAfter_append (removes : ∀ a, .remove a ∈ cs → chosen a = true)
    (hl : ∀ a ∈ l.map Prod.fst, chosen a = false) (hm : ∀ a ∈ m.map Prod.fst, chosen a = true)
    (orderly : Orderly chosen cs l m) : attributesAfter cs (l ++ m) =
      attributesAfter (cs.filter fun c => !concerns chosen c) l ++
        attributesAfter (cs.filter (concerns chosen)) m := by
  induction cs generalizing l m with
  | nil => rfl
  | cons c cs ih =>
      have removes' : ∀ a, .remove a ∈ cs → chosen a = true :=
        fun a mem => removes a (List.mem_cons_of_mem c mem)
      cases concerned : concerns chosen c with
      | true =>
          have hm' : ∀ a ∈ (c.attributes m).map Prod.fst, chosen a = true :=
            forall_names_attributes hm fun a w made => by rwa [made] at concerned
          have rest : Orderly chosen cs l (c.attributes m) := by
            refine orderly.tail (fun b others new => ⟨new, ?_⟩) (by rw [concerned, if_pos rfl])
            rintro w rfl
            rw [concerns, others] at concerned
            cases concerned
          rw [List.filter_cons_of_neg (by simp [concerned]), List.filter_cons_of_pos concerned]
          change attributesAfter cs (c.attributes (l ++ m)) = _
          rw [attributes_append_of_concerns concerned hl]
          exact ih removes' hl hm' rest
      | false =>
          rw [List.filter_cons_of_pos (by simp [concerned]), List.filter_cons_of_neg (by simp [concerned])]
          cases c with
          | text s => exact ih removes' hl hm (orderly.tail (fun b _ new => ⟨new, by simp⟩) rfl)
          | remove b =>
              rw [concerns, removes b List.mem_cons_self] at concerned
              cases concerned
          | set b u =>
              have hl' : ∀ a ∈ (setAttribute b u l).map Prod.fst, chosen a = false :=
                forall_names_attributes (c := .set b u) hl fun a w made => by
                  rwa [concerns, (Change.set.inj made).1] at concerned
              have rest : Orderly chosen cs (setAttribute b u l) m := by
                refine orderly.tail (fun c _ new => ?_) (by rw [concerned, if_neg Bool.false_ne_true])
                rw [mem_names_setAttribute, not_or] at new
                exact ⟨new.2, fun w same => new.1 (Change.set.inj same).1⟩
              have apart : attributesAfter cs (setAttribute b u (l ++ m)) =
                  attributesAfter cs (setAttribute b u l ++ m) := by
                by_cases old : b ∈ l.map Prod.fst
                · rw [setAttribute_append_of_mem old]
                · have new : b ∉ m.map Prod.fst := by
                    intro mem
                    rw [concerns, hm b mem] at concerned
                    cases concerned
                  exact attributesAfter_append_new old new
                    (orderly [] b u cs rfl concerned old fun w => List.not_mem_nil)
              exact apart.trans (ih removes' hl' hm rest)

/-- An attribute comes to stand after one that was removed and set again, and stays, though it was not there
at the start and is never removed: made again, the changes put it before. -/
def Unsettled (given : List (String × String)) (cs : List Change) : Prop :=
  ∃ before a v between b u after, cs = before ++ .set a v :: between ++ .set b u :: after ∧
    .remove a ∈ before ∧ .remove a ∉ between ++ after ∧
    b ∉ given.map Prod.fst ∧ .remove b ∉ cs ∧ ∀ w, .set b w ∉ before ++ .set a v :: between

theorem orderly_of_settled (settled : ¬ Unsettled l cs) :
    Orderly (fun a => .remove a ∈ cs) cs (l.filter fun entry => .remove entry.1 ∉ cs) [] := by
  intro before b u after eq others new first a mem
  have stays : .remove b ∉ cs := by simpa using others
  -- Otherwise `a`, which was set for the last time before, stands before the new `b`.
  by_contra kept
  obtain ⟨earlier, v, between, parted, last⟩ := exists_last_set mem
  obtain ⟨front, rest, rfl, _, parted⟩ := List.filter_eq_append_iff.mp parted
  obtain ⟨skipped, back, rfl, _, concerned, rfl⟩ := List.filter_eq_cons_iff.mp parted
  have gone : .remove a ∈ cs := by simpa [concerns] using concerned
  have notBack : .remove a ∉ back := fun inside =>
    last (List.mem_filter.mpr ⟨inside, by simpa [concerns] using gone⟩)
  refine settled ⟨front ++ skipped, a, v, back, b, u, after, by simp [eq], ?_, ?_, ?_, stays, ?_⟩
  · rw [eq] at gone
    simpa [notBack, kept] using gone
  · simpa using ⟨notBack, kept⟩
  · intro mem
    obtain ⟨entry, inside, rfl⟩ := List.mem_map.mp mem
    exact new (List.mem_map_of_mem (List.mem_filter.mpr ⟨inside, by simpa using stays⟩))
  · simpa using first

/-- Settled changes leave attributes as they are when they are made again. -/
theorem attributesAfter_twice (settled : ¬ Unsettled l cs) :
    attributesAfter cs (attributesAfter cs l) = attributesAfter cs l := by
  -- The attributes that are never removed stay where they are put. Those that are removed come after them.
  let chosen : String → Bool := fun a => .remove a ∈ cs
  let others := cs.filter fun c => !concerns chosen c
  let given := l.filter fun entry => .remove entry.1 ∉ cs
  let stay := attributesAfter others given
  let come := attributesAfter (cs.filter (concerns chosen)) []
  have removes : ∀ a, .remove a ∈ cs → chosen a = true := fun a mem => by simpa [chosen] using mem
  have nothing : ∀ a ∈ ([] : List (String × String)).map Prod.fst, chosen a = true := by simp
  have given_others : ∀ a ∈ given.map Prod.fst, chosen a = false := by
    intro a mem
    obtain ⟨entry, inside, rfl⟩ := List.mem_map.mp mem
    simpa [chosen] using (List.mem_filter.mp inside).2
  have once : attributesAfter cs l = stay ++ come := by
    rw [← attributesAfter_filter]
    have apart := attributesAfter_append removes given_others nothing (orderly_of_settled settled)
    rwa [List.append_nil] at apart
  have stay_others : ∀ a ∈ stay.map Prod.fst, chosen a = false :=
    forall_names_attributesAfter given_others fun a w made => by
      simpa [concerns] using (List.mem_filter.mp made).2
  have come_chosen : ∀ a ∈ come.map Prod.fst, .remove a ∈ cs :=
    forall_names_attributesAfter (by simp) fun a w made => by
      simpa [concerns, chosen] using (List.mem_filter.mp made).2
  have sets : ∀ a, .remove a ∉ others := by
    intro a mem
    obtain ⟨inside, apart⟩ := List.mem_filter.mp mem
    simp [concerns, removes a inside] at apart
  have orderly : Orderly chosen cs stay [] := by
    intro before b u after eq apart new _
    refine absurd (mem_names_attributesAfter (sets b) (.inl ⟨u, (?_ : .set b u ∈ others)⟩)) new
    exact List.mem_filter.mpr ⟨by rw [eq]; simp, by simpa [concerns] using apart⟩
  have again := attributesAfter_append removes stay_others nothing orderly
  rw [List.append_nil, attributesAfter_twice_of_sets sets] at again
  -- What came last the first time does not matter the second: all of it is removed.
  have dropped : attributesAfter cs (stay ++ come) = attributesAfter cs stay := by
    refine attributesAfter_congr ?_
    rw [List.filter_append, filter_of_gone come_chosen, List.append_nil]
  rw [once, dropped, again]

/-! ## Changes that are not settled -/

/-- Whether one attribute is there, and another, and the one stands before the other. -/
def Precedes (a b : String) (l : List (String × String)) : Prop :=
  ∃ first last, l = first ++ last ∧ (a ∈ first.map Prod.fst ∧ a ∉ last.map Prod.fst) ∧
    b ∉ first.map Prod.fst ∧ b ∈ last.map Prod.fst

theorem Precedes.asymm {a b : String} (ab : Precedes a b l) : ¬ Precedes b a l := by
  obtain ⟨first, last, rfl, ⟨hereA, _⟩, awayB, _⟩ := ab
  rintro ⟨first', last', eq, ⟨hereB, _⟩, awayA, _⟩
  rcases List.append_eq_append_iff.mp eq with ⟨more, rfl, _⟩ | ⟨more, rfl, _⟩
  · rw [List.map_append, List.mem_append, not_or] at awayA
    exact awayA.1 hereA
  · rw [List.map_append, List.mem_append, not_or] at awayB
    exact awayB.1 hereB

theorem Precedes.attributes {a b : String} (ab : Precedes a b l) (keptA : .remove a ≠ c)
    (keptB : .remove b ≠ c) : Precedes a b (c.attributes l) := by
  obtain ⟨first, last, rfl, ⟨hereA, awayA⟩, awayB, hereB⟩ := ab
  cases c with
  | text s => exact ⟨first, last, rfl, ⟨hereA, awayA⟩, awayB, hereB⟩
  | set n u =>
      by_cases inside : n ∈ first.map Prod.fst
      · refine ⟨_, _, setAttribute_append_of_mem inside, ⟨mem_names_attributes hereA keptA, awayA⟩, ?_,
          hereB⟩
        rw [mem_names_setAttribute, not_or]
        refine ⟨?_, awayB⟩
        rintro rfl
        exact awayB inside
      · refine ⟨_, _, setAttribute_append_of_not_mem inside, ⟨hereA, ?_⟩, awayB,
          mem_names_attributes hereB keptB⟩
        rw [mem_names_setAttribute, not_or]
        refine ⟨?_, awayA⟩
        rintro rfl
        exact inside hereA
  | remove n =>
      exact ⟨_, _, List.filter_append .., ⟨mem_names_attributes hereA keptA, fun mem =>
        awayA (mem_names_filter.mp mem).1⟩, fun mem => awayB (mem_names_filter.mp mem).1,
        mem_names_attributes hereB keptB⟩

theorem Precedes.attributesAfter {a b : String} (ab : Precedes a b l) (keptA : .remove a ∉ cs)
    (keptB : .remove b ∉ cs) : Precedes a b (attributesAfter cs l) := by
  induction cs generalizing l with
  | nil => exact ab
  | cons c cs ih =>
      rw [List.mem_cons, not_or] at keptA keptB
      exact ih (ab.attributes keptA.1 keptB.1) keptA.2 keptB.2

theorem precedes_new {a b u : String} (here : a ∈ l.map Prod.fst) (new : b ∉ l.map Prod.fst) :
    Precedes a b (setAttribute b u l) := by
  have last := setAttribute_append_of_not_mem (u := u) (m := []) new
  rw [List.append_nil] at last
  refine ⟨l, [(b, u)], last, ⟨here, ?_⟩, new, by simp⟩
  rw [List.map_singleton, List.mem_singleton]
  rintro rfl
  exact new here

/-- Where an attribute is missing, it comes to stand after one that stays, whenever it is set. -/
theorem precedes_of_missing {a b : String} (here : b ∈ l.map Prod.fst) (kept : .remove b ∉ cs)
    (start : a ∉ l.map Prod.fst ∨ Precedes b a l) :
    a ∉ (attributesAfter cs l).map Prod.fst ∨ Precedes b a (attributesAfter cs l) := by
  induction cs generalizing l with
  | nil => exact start
  | cons c cs ih =>
      rw [List.mem_cons, not_or] at kept
      refine ih (mem_names_attributes here kept.1) kept.2 ?_
      by_cases goes : .remove a = c
      · subst goes
        exact .inl fun mem => (mem_names_filter.mp mem).2 rfl
      · rcases start with missing | stands
        · by_cases comes : ∃ u, c = .set a u
          · obtain ⟨u, rfl⟩ := comes
            exact .inr (precedes_new here missing)
          · refine .inl fun mem => ?_
            refine forall_names_attributes (p := fun n => n ≠ a) ?_ ?_ a mem rfl
            · rintro n there rfl
              exact missing there
            · rintro n u set rfl
              exact comes ⟨u, set⟩
        · exact .inr (stands.attributes kept.1 goes)

theorem precedes_of_removed {a b : String} {early late : List Change} (here : b ∈ l.map Prod.fst)
    (kept : .remove b ∉ early ++ .remove a :: late) :
    a ∉ (Change.attributesAfter (early ++ .remove a :: late) l).map Prod.fst ∨
      Precedes b a (Change.attributesAfter (early ++ .remove a :: late) l) := by
  rw [List.mem_append, List.mem_cons, not_or, not_or] at kept
  have there : b ∈ (Change.attributesAfter early l).map Prod.fst :=
    mem_names_attributesAfter kept.1 (.inr here)
  have missing : a ∉ ((Change.remove a).attributes (Change.attributesAfter early l)).map Prod.fst :=
    fun mem => (mem_names_filter.mp mem).2 rfl
  have placed := precedes_of_missing (mem_names_attributes there kept.2.1) kept.2.2 (.inl missing)
  rw [attributesAfter_append_changes]
  exact placed

/-- The first time the new attribute is put after the one that was set again. The second time it is there
already when that one is removed. -/
theorem Unsettled.ne (unsettled : Unsettled l cs) :
    Change.attributesAfter cs (Change.attributesAfter cs l) ≠ Change.attributesAfter cs l := by
  obtain ⟨before, a, v, between, b, u, after, eq, removed, kept, new, stays, unset⟩ := unsettled
  rw [List.mem_append, not_or] at kept
  have first : Precedes a b (Change.attributesAfter cs l) := by
    have there : a ∈ (Change.attributesAfter (before ++ .set a v :: between) l).map Prod.fst := by
      rw [attributesAfter_append_changes]
      exact mem_names_attributesAfter (by simp [kept]) (.inl ⟨v, List.mem_cons_self⟩)
    have absent : b ∉ (Change.attributesAfter (before ++ .set a v :: between) l).map Prod.fst := by
      intro mem
      refine forall_names_attributesAfter (p := fun n => n ≠ b) ?_ ?_ b mem rfl
      · rintro n there rfl
        exact new there
      · rintro n w set rfl
        exact unset w set
    rw [eq, attributesAfter_append_changes]
    exact (precedes_new there absent).attributesAfter kept.2 fun mem => stays (by simp [eq, mem])
  have second : Precedes b a (Change.attributesAfter cs (Change.attributesAfter cs l)) := by
    obtain ⟨_, last, made, _, _, hereB⟩ := first
    have here : b ∈ (Change.attributesAfter cs l).map Prod.fst := by simp [made, hereB]
    obtain ⟨early, late, rfl⟩ := List.append_of_mem removed
    have there : a ∈ (Change.attributesAfter cs (Change.attributesAfter cs l)).map Prod.fst := by
      rw [eq, List.append_assoc, attributesAfter_append_changes]
      exact mem_names_attributesAfter (by simp [kept]) (.inl ⟨v, by simp⟩)
    simp only [List.append_assoc, List.cons_append] at eq
    rw [eq] at stays
    have placed := precedes_of_removed here stays
    rw [← eq] at placed
    exact placed.resolve_left fun missing => missing there
  intro same
  rw [same] at second
  exact first.asymm second

theorem attributesAfter_twice_iff :
    Change.attributesAfter cs (Change.attributesAfter cs l) = Change.attributesAfter cs l ↔
      ¬ Unsettled l cs :=
  ⟨fun same unsettled => unsettled.ne same, attributesAfter_twice⟩

/-- Changes that are made twice do no more than once just if they are settled. -/
theorem applyAll_twice_iff {e : Element} :
    applyAll cs (applyAll cs e) = applyAll cs e ↔ ¬ Unsettled e.attributes cs := by
  rw [← attributesAfter_twice_iff, applyAll_eq cs (applyAll cs e), applyAll_eq cs e]
  constructor
  · exact congrArg Element.attributes
  · intro same
    rw [same]
    cases (cs.filterMap text?).getLast? <;> rfl

/-- Where nothing that is removed is set, there is nothing to settle. -/
theorem settled_of_disjoint (disjoint : ∀ a v, .set a v ∈ cs → .remove a ∉ cs) : ¬ Unsettled l cs := by
  rintro ⟨before, a, v, between, b, u, after, rfl, removed, _⟩
  exact disjoint a v (by simp) (by simp [removed])

end Change

end SvgForm.Xml
