import Mathlib.Tactic.MkIffOfInductiveProp
import SvgForm.Proofs.Identity.Keys
import SvgForm.Proofs.Lookup
import SvgForm.Proofs.Xml.Spelling
import SvgForm.Xml.Namespace
/-! # Short forms of namespaces

The namespaces of a tree get different short forms as they are met. What the root declares for them binds each
short form to its namespace again, if the namespaces can be declared at all.
-/

namespace SvgForm.Xml

namespace Spaces

variable {met met' : Spaces} {uri uri' short : String} {i : Nat}

/-! ## Namespaces that are met -/

/-- The short form for a namespace before which `i` others were met. -/
def shortAt (uri : String) (i : Nat) : String :=
  (shortForms.lookup uri).getD ("ns" ++ .ofList (Nat.toDigits 10 i))

/-- Namespaces with the short forms that they get as they are met. -/
structure Sound (met : Spaces) : Prop where
  distinct : (met.map Prod.fst).Nodup
  short : ∀ i uri short, met[i]? = some (uri, short) → short = shortAt uri i
  /-- One namespace is never declared. -/
  declared : ∀ p ∈ met, p.2 ≠ "xml"

theorem shortAt_eq_xml_iff : shortAt uri i = "xml" ↔ uri = xmlNamespace := by
  have numbered : ("ns" ++ String.ofList (Nat.toDigits 10 i)) ≠ "xml" := by
    intro same
    have lists := congrArg String.toList same
    rw [String.toList_append, String.toList_ofList] at lists
    exact absurd (List.cons.inj lists).1 (by decide)
  have known : ∀ e ∈ shortForms, e.2 = "xml" ↔ e.1 = xmlNamespace := by decide
  rw [shortAt]
  cases found : shortForms.lookup uri with
  | none =>
      rw [Option.getD_none, iff_false_left numbered]
      rintro rfl
      exact absurd found (by decide)
  | some short =>
      have distinct : (shortForms.map Prod.fst).Nodup := by decide
      rw [Option.getD_some]
      exact known _ ((lookup_eq_some_iff distinct).mp found)

theorem Sound.nil : Sound [] where
  distinct := List.nodup_nil
  short := by simp
  declared := by simp

theorem shortForm_of_lookup_none (absent : met.lookup uri = none) : met.shortForm uri = shortAt uri met.length := by
  rw [shortForm, absent, shortAt]
  cases shortForms.lookup uri <;> rfl

theorem Sound.shortForm_of_mem (sound : met.Sound) (mem : (uri, short) ∈ met) : met.shortForm uri = short := by
  rw [shortForm, (lookup_eq_some_iff sound.distinct).mpr mem]

theorem Sound.not_mem_xml (sound : met.Sound) : xmlNamespace ∉ met.map Prod.fst := by
  intro mem
  obtain ⟨⟨uri, short⟩, there, rfl⟩ := List.mem_map.mp mem
  obtain ⟨i, at_i⟩ := List.mem_iff_getElem?.mp there
  exact sound.declared _ there ((sound.short i _ _ at_i).trans (shortAt_eq_xml_iff.mpr rfl))

theorem Sound.shortForm_eq_xml_iff (sound : met.Sound) : met.shortForm uri = "xml" ↔ uri = xmlNamespace := by
  cases found : met.lookup uri with
  | none => rw [shortForm_of_lookup_none found, shortAt_eq_xml_iff]
  | some short =>
      have mem := (lookup_eq_some_iff sound.distinct).mp found
      rw [sound.shortForm_of_mem mem, iff_false_left (sound.declared _ mem)]
      rintro rfl
      exact sound.not_mem_xml (List.mem_map_of_mem mem)

theorem Sound.concat (sound : met.Sound) (absent : met.lookup uri = none) (other : uri ≠ xmlNamespace) :
    Sound (met ++ [(uri, met.shortForm uri)]) where
  distinct := by
    rw [List.map_append, List.map_singleton, ← List.concat_eq_append]
    exact sound.distinct.concat (lookup_eq_none_iff.mp absent)
  short := by
    intro i u s at_i
    rw [List.getElem?_append] at at_i
    split at at_i
    case isTrue => exact sound.short i u s at_i
    case isFalse beyond =>
      rw [List.getElem?_singleton] at at_i
      split at at_i
      case isFalse => cases at_i
      case isTrue last =>
        obtain ⟨rfl, rfl⟩ := Prod.mk.inj (Option.some.inj at_i)
        rw [shortForm_of_lookup_none absent, show i = met.length by omega]
  declared := by
    intro p mem
    rcases List.mem_append.mp mem with old | new
    · exact sound.declared p old
    · rw [List.mem_singleton.mp new]
      exact sound.shortForm_eq_xml_iff.not.mpr other

/-- Names whose namespaces are met: each has a namespace that is never declared, or one of these. -/
structure Meets (names : List String) (met : Spaces) : Prop where
  sound : met.Sound
  parted : ∀ n ∈ names, ∃ parts, splitName n = .ok parts
  covered : ∀ n ∈ names, ∀ uri label, splitName n = .ok (some uri, label) →
    uri = xmlNamespace ∨ uri ∈ met.map Prod.fst
  used : ∀ uri ∈ met.map Prod.fst, ∃ n ∈ names, ∃ label, splitName n = .ok (some uri, label)

theorem Meets.nil : Meets [] [] := ⟨.nil, by simp, by simp, by simp⟩

theorem meet_spec {name : String} (after : met.meet name = .ok met') :
    ∃ uri? label, splitName name = .ok (uri?, label) ∧
      ((met' = met ∧ ∀ uri, uri? = some uri → met.shortForm uri = "xml" ∨ (met.lookup uri).isSome) ∨
        ∃ uri, uri? = some uri ∧ met' = met ++ [(uri, met.shortForm uri)] ∧ met.shortForm uri ≠ "xml" ∧
          met.lookup uri = none) := by
  rw [meet] at after
  generalize parts : splitName name = split at after
  cases split with
  | error e => cases after
  | ok split =>
      obtain ⟨uri?, label⟩ := split
      refine ⟨uri?, label, rfl, ?_⟩
      cases uri? with
      | none => exact .inl ⟨(Except.ok.inj after).symm, by simp⟩
      | some uri =>
          have made := Except.ok.inj after
          by_cases known : met.shortForm uri = "xml" ∨ (met.lookup uri).isSome
          · rw [if_pos known] at made
            obtain rfl := made
            exact .inl ⟨rfl, fun _ same => Option.some.inj same ▸ known⟩
          · rw [if_neg known] at made
            obtain rfl := made
            rw [not_or, Option.not_isSome_iff_eq_none] at known
            exact .inr ⟨uri, rfl, rfl, known⟩

theorem Meets.concat {names : List String} {name : String} (meets : Meets names met)
    (after : met.meet name = .ok met') : Meets (names ++ [name]) met' := by
  obtain ⟨uri?, label, parts, same | ⟨uri, rfl, rfl, other, absent⟩⟩ := meet_spec after
  · obtain ⟨rfl, known⟩ := same
    refine ⟨meets.sound, fun n mem => ?_, fun n mem uri l split => ?_, fun uri mem => ?_⟩
    · rcases List.mem_append.mp mem with old | new
      · exact meets.parted n old
      · exact ⟨_, List.mem_singleton.mp new ▸ parts⟩
    · rcases List.mem_append.mp mem with old | new
      · exact meets.covered n old uri l split
      · obtain rfl := List.mem_singleton.mp new
        obtain ⟨rfl, -⟩ := Prod.mk.inj (Except.ok.inj (parts.symm.trans split))
        refine (known uri rfl).imp meets.sound.shortForm_eq_xml_iff.mp fun found => ?_
        by_contra absent
        rw [lookup_eq_none_iff.mpr absent] at found
        cases found
    · obtain ⟨n, old, split⟩ := meets.used uri mem
      exact ⟨n, List.mem_append_left _ old, split⟩
  · refine ⟨meets.sound.concat absent (meets.sound.shortForm_eq_xml_iff.not.mp other), fun n mem => ?_,
      fun n mem u l split => ?_, fun u mem => ?_⟩
    · rcases List.mem_append.mp mem with old | new
      · exact meets.parted n old
      · exact ⟨_, List.mem_singleton.mp new ▸ parts⟩
    · rw [List.map_append, List.mem_append]
      rcases List.mem_append.mp mem with old | new
      · exact (meets.covered n old u l split).imp_right .inl
      · obtain rfl := List.mem_singleton.mp new
        obtain ⟨same, -⟩ := Prod.mk.inj (Except.ok.inj (parts.symm.trans split))
        exact .inr (.inr (by simp [Option.some.inj same]))
    · rw [List.map_append, List.mem_append] at mem
      rcases mem with old | new
      · obtain ⟨n, old, split⟩ := meets.used u old
        exact ⟨n, List.mem_append_left _ old, split⟩
      · obtain rfl := List.mem_singleton.mp new
        exact ⟨name, by simp, label, parts⟩

theorem Meets.foldlM {before names : List String} (meets : Meets before met) (all : names.foldlM meet met = .ok met') :
    Meets (before ++ names) met' := by
  induction names generalizing before met with
  | nil =>
      obtain rfl := Except.ok.inj all
      simpa using meets
  | cons name names ih =>
      rw [List.foldlM_cons] at all
      cases first : met.meet name with
      | error e =>
          rw [first] at all
          cases all
      | ok next =>
          rw [first] at all
          simpa using ih (meets.concat first) all

/-! ## Short forms -/

theorem toList_shortAt_none (unknown : shortForms.lookup uri = none) :
    (shortAt uri i).toList = 'n' :: 's' :: Nat.toDigits 10 i := by
  simp [shortAt, unknown]

theorem known_of_lookup (known : shortForms.lookup uri = some short) : (uri, short) ∈ shortForms := by
  have distinct : (shortForms.map Prod.fst).Nodup := by decide
  exact (lookup_eq_some_iff distinct).mp known

theorem Sound.short_spec (sound : met.Sound) (mem : (uri, short) ∈ met) :
    ∃ i, met[i]? = some (uri, short) ∧ short = shortAt uri i := by
  obtain ⟨i, at_i⟩ := List.mem_iff_getElem?.mp mem
  exact ⟨i, at_i, sound.short i uri short at_i⟩

/-- Short forms are empty or labels. -/
theorem Sound.isLabel_short (sound : met.Sound) (mem : (uri, short) ∈ met) (some : short ≠ "") :
    isLabel short.toList = true := by
  obtain ⟨i, -, rfl⟩ := sound.short_spec mem
  cases found : shortForms.lookup uri with
  | none =>
      have digits : ∀ c ∈ Nat.toDigits 10 i, isNameChar c = true := by
        intro c mem
        have digit := Nat.isDigit_of_mem_toDigits (by decide) (by decide) mem
        have ascii : c.toNat < 0x80 := by
          have nine : '9'.toNat = 57 := rfl
          have := (Char.isDigit_iff_toNat.mp digit).2
          omega
        rw [isNameChar, if_pos ascii, Char.isAlphanum, digit]
        simp
      have start : isNameStart 'n' = true := by decide
      have next : isNameChar 's' = true := by decide
      rw [toList_shortAt_none found, isLabel, start, List.all_cons, next, Bool.true_and, Bool.true_and,
        List.all_eq_true]
      exact digits
  | some short =>
      have labels : ∀ e ∈ shortForms, e.2 = "" ∨ isLabel e.2.toList = true := by decide
      rw [shortAt, found, Option.getD_some] at some ⊢
      exact (labels _ (known_of_lookup found)).resolve_left some

theorem Sound.short_ne_xmlns (sound : met.Sound) (mem : (uri, short) ∈ met) : short ≠ "xmlns" := by
  obtain ⟨i, -, rfl⟩ := sound.short_spec mem
  cases found : shortForms.lookup uri with
  | none =>
      intro same
      have lists := (toList_shortAt_none found).symm.trans (congrArg String.toList same)
      exact absurd (List.cons.inj lists).1 (by decide)
  | some short =>
      have others : ∀ e ∈ shortForms, e.2 ≠ "xmlns" := by decide
      rw [shortAt, found, Option.getD_some]
      exact others _ (known_of_lookup found)

theorem Sound.short_eq_empty_iff (sound : met.Sound) (mem : (uri, short) ∈ met) : short = "" ↔ uri = svgNamespace := by
  obtain ⟨i, -, rfl⟩ := sound.short_spec mem
  cases found : shortForms.lookup uri with
  | none =>
      have some : shortAt uri i ≠ "" := fun same => by
        have lists := (toList_shortAt_none found).symm.trans (congrArg String.toList same)
        cases lists
      rw [iff_false_left some]
      rintro rfl
      exact absurd found (by decide)
  | some short =>
      have empty : ∀ e ∈ shortForms, e.2 = "" ↔ e.1 = svgNamespace := by decide
      rw [shortAt, found, Option.getD_some]
      exact empty _ (known_of_lookup found)

/-- Different namespaces have different short forms. -/
theorem Sound.uri_inj (sound : met.Sound) (mem : (uri, short) ∈ met) (mem' : (uri', short) ∈ met) : uri = uri' := by
  obtain ⟨i, at_i, first⟩ := sound.short_spec mem
  obtain ⟨j, at_j, second⟩ := sound.short_spec mem'
  have apart : ∀ e ∈ shortForms, ¬ ['n', 's'] <+: e.2.toList := by decide
  cases found : shortForms.lookup uri with
  | none =>
      have spelled := toList_shortAt_none (i := i) found
      rw [← first] at spelled
      cases found' : shortForms.lookup uri' with
      | none =>
          have spelled' := toList_shortAt_none (i := j) found'
          rw [← second, spelled] at spelled'
          obtain rfl := toDigits_inj (List.cons.inj (List.cons.inj spelled').2).2
          exact (Prod.mk.inj (Option.some.inj (at_i.symm.trans at_j))).1
      | some known =>
          rw [shortAt, found', Option.getD_some] at second
          exact absurd (by rw [← second, spelled]; simp) (apart _ (known_of_lookup found'))
  | some known =>
      rw [shortAt, found, Option.getD_some] at first
      cases found' : shortForms.lookup uri' with
      | none =>
          have spelled' := toList_shortAt_none (i := j) found'
          rw [← second, first] at spelled'
          exact absurd (by rw [spelled']; simp) (apart _ (known_of_lookup found))
      | some known' =>
          rw [shortAt, found', Option.getD_some] at second
          have one : ∀ e ∈ shortForms, ∀ e' ∈ shortForms, e.2 = e'.2 → e.1 = e'.1 := by decide
          exact one _ (known_of_lookup found) _ (known_of_lookup found') (first.symm.trans second)

/-! ## Declarations -/

/-- The name of the attribute that declares a short form. -/
def declaring (short : String) : QName :=
  if short = "" then ⟨none, "xmlns".toList⟩ else ⟨some "xmlns".toList, short.toList⟩

/-- What a declaration binds. -/
def binding (p : String × String) : Option (List Char) × List Char :=
  (if p.2 = "" then none else some p.2.toList, p.1.toList)

/-- The namespaces in the order of their short forms. -/
def sorted (met : Spaces) : Spaces :=
  met.mergeSort fun a b => decide (a.2 ≤ b.2)

theorem mem_sorted {p : String × String} : p ∈ met.sorted ↔ p ∈ met :=
  (List.mergeSort_perm met _).mem_iff

/-- The attributes that declare the namespaces. -/
def declared (met : Spaces) : List (QName × String) :=
  met.sorted.map fun p => (declaring p.2, p.1)

theorem declarations_eq (met : Spaces) :
    met.declarations = met.declared.flatMap fun a => writeAttribute a.1.spelling a.2 := by
  rw [declarations, declared, List.flatMap_map, sorted]
  refine List.flatMap_congr fun p _ => ?_
  by_cases empty : p.2 = "" <;> simp [declaring, QName.spelling, empty]

/-- Whether a declaration may bind a short form to the namespace. -/
@[mk_iff] structure Declarable (uri : String) : Prop where
  filled : uri ≠ ""
  other : uri ≠ xmlnsNamespace
  closed : '\x7d' ∉ uri.toList

theorem Sound.proper_declaring (sound : met.Sound) {p : String × String} (mem : p ∈ met) :
    (declaring p.2).IsProper := by
  have label : isLabel "xmlns".toList = true := by decide
  rw [declaring]
  split
  case isTrue => exact ⟨label, fun _ none => by cases none⟩
  case isFalse some =>
    exact ⟨sound.isLabel_short mem some, fun _ same => Option.some.inj same ▸ label⟩

theorem declaresNamespace_declaring (short : String) : (declaring short).declaresNamespace = true := by
  rw [declaring]
  split <;> rfl

instance (uri : String) : Decidable (Declarable uri) :=
  decidable_of_iff' _ (declarable_iff uri)

theorem Sound.declare?_declaring (sound : met.Sound) {p : String × String} (mem : p ∈ met) (b : Bindings) :
    b.declare? (declaring p.2) p.1.toList = if Declarable p.1 then some (binding p :: b) else none := by
  obtain ⟨uri, short⟩ := p
  have xml : short.toList ≠ "xml".toList := fun same => sound.declared _ mem (String.toList_inj.mp same)
  have xmlns : short.toList ≠ "xmlns".toList := fun same => sound.short_ne_xmlns mem (String.toList_inj.mp same)
  have known : uri.toList ≠ xmlNamespace.toList := fun same =>
    sound.not_mem_xml (String.toList_inj.mp same ▸ List.mem_map_of_mem mem)
  have iff : Declarable uri ↔ uri.toList ≠ [] ∧ uri.toList ≠ xmlnsNamespace.toList ∧ '\x7d' ∉ uri.toList := by
    rw [declarable_iff, Ne, Ne, Ne, Ne, String.toList_inj, String.toList_eq_nil_iff]
  have plain' : (uri.toList == xmlNamespace.toList) = false := by simpa using known
  by_cases empty : short = ""
  · have svg : uri.toList ≠ [] := by
      rw [(sound.short_eq_empty_iff mem).mp empty]
      decide
    by_cases other : uri.toList = xmlnsNamespace.toList
    · simp [Bindings.declare?, declaring, empty, iff, other]
    · by_cases closed : '\x7d' ∈ uri.toList
      · simp [Bindings.declare?, declaring, empty, iff, closed]
      · simp [Bindings.declare?, declaring, binding, empty, iff, svg, other, closed, plain']
  · by_cases filled : uri.toList = []
    · simp [Bindings.declare?, declaring, empty, iff, filled]
    · by_cases other : uri.toList = xmlnsNamespace.toList
      · simp [Bindings.declare?, declaring, empty, iff, other]
      · by_cases closed : '\x7d' ∈ uri.toList
        · simp [Bindings.declare?, declaring, empty, iff, closed]
        · simpa [Bindings.declare?, declaring, binding, empty, iff, filled, other, closed, plain'] using ⟨xmlns, xml⟩

/-- The bindings inside the root. -/
def bindings (met : Spaces) : Bindings :=
  (met.sorted.map binding).reverse ++ .initial

theorem Sound.foldlM_declare? (sound : met.Sound) {l : Spaces} (among : l ⊆ met) (b : Bindings) :
    (l.map fun p => (declaring p.2, p.1.toList)).foldlM (fun b (q, value) =>
        if q.declaresNamespace then b.declare? q value else some b) b =
      if ∀ p ∈ l, Declarable p.1 then some ((l.map binding).reverse ++ b) else none := by
  induction l generalizing b with
  | nil => simp
  | cons p l ih =>
      obtain ⟨here, later⟩ := List.cons_subset.mp among
      rw [List.map_cons, List.foldlM_cons]
      simp only [declaresNamespace_declaring, if_true, sound.declare?_declaring here]
      by_cases good : Declarable p.1
      · have both : (∀ p' ∈ p :: l, Declarable p'.1) ↔ ∀ p' ∈ l, Declarable p'.1 := by
          rw [List.forall_mem_cons, and_iff_right good]
        rw [if_pos good]
        refine (ih later _).trans (if_congr both.symm ?_ rfl)
        simp
      · simp [good]

theorem Sound.nodup_shorts (sound : met.Sound) : (met.sorted.map Prod.snd).Nodup := by
  have distinct : met.sorted.Nodup := (List.mergeSort_perm met _).nodup_iff.mpr sound.distinct.of_map
  refine List.Nodup.map_on ?_ distinct
  rintro ⟨uri, short⟩ mem ⟨uri', short'⟩ mem' rfl
  rw [sound.uri_inj (mem_sorted.mp mem) (mem_sorted.mp mem')]

theorem Sound.nodup_declared (sound : met.Sound) : (met.declared.map Prod.fst).Nodup := by
  have shorts : met.declared.map Prod.fst = (met.sorted.map Prod.snd).map declaring := by simp [Spaces.declared]
  rw [shorts]
  refine sound.nodup_shorts.map fun short short' same => ?_
  simp only [declaring] at same
  split at same <;> split at same <;> simp_all [String.toList_inj]

theorem Sound.keys_bindings_nodup (sound : met.Sound) : (met.bindings.map Prod.fst).Nodup := by
  have declared : (met.sorted.map fun p => (binding p).1).Nodup := by
    have shorts : met.sorted.map (fun p => (binding p).1) =
        (met.sorted.map Prod.snd).map fun short => if short = "" then none else some short.toList := by simp [binding]
    rw [shorts]
    refine sound.nodup_shorts.map fun short short' same => ?_
    split at same <;> split at same <;> simp_all [String.toList_inj]
  rw [bindings, List.map_append, List.map_reverse, List.map_map]
  refine List.Nodup.append (List.nodup_reverse.mpr declared) (List.nodup_singleton _) ?_
  refine List.disjoint_singleton.mpr fun mem => ?_
  rw [List.mem_reverse] at mem
  obtain ⟨p, there, same⟩ := List.mem_map.mp mem
  have short : p.2 = "xml" := by
    simp only [Function.comp_apply, binding] at same
    split at same
    case isTrue => cases same
    case isFalse => exact String.toList_inj.mp (Option.some.inj same)
  exact sound.declared p (mem_sorted.mp there) short

theorem mem_bindings {b : Option (List Char) × List Char} :
    b ∈ met.bindings ↔ (∃ p ∈ met, binding p = b) ∨ b = (some "xml".toList, xmlNamespace.toList) := by
  simp [bindings, Bindings.initial, mem_sorted]

theorem Sound.lookup_bindings (sound : met.Sound) {space : Option (List Char)} {uri : List Char} :
    met.bindings.lookup space = some uri ↔
      (∃ p ∈ met, binding p = (space, uri)) ∨ (space, uri) = (some "xml".toList, xmlNamespace.toList) := by
  rw [lookup_eq_some_iff sound.keys_bindings_nodup, mem_bindings]

theorem Sound.lookup_short (sound : met.Sound) (mem : (uri, short) ∈ met) :
    met.bindings.lookup (if short = "" then none else some short.toList) = some uri.toList :=
  sound.lookup_bindings.mpr (.inl ⟨_, mem, rfl⟩)

theorem Sound.lookup_xml (sound : met.Sound) : met.bindings.lookup (some "xml".toList) = some xmlNamespace.toList :=
  sound.lookup_bindings.mpr (.inr rfl)

/-- Only the namespace of the language is bound without a short form, and it has no other. -/
theorem Sound.svg_iff (sound : met.Sound) {space : Option (List Char)} {uri : List Char}
    (bound : met.bindings.lookup space = some uri) : space = none ↔ uri = svgNamespace.toList := by
  rcases sound.lookup_bindings.mp bound with ⟨⟨u, s⟩, mem, same⟩ | same
  · obtain ⟨rfl, rfl⟩ := Prod.mk.inj same
    rw [String.toList_inj, ← sound.short_eq_empty_iff mem]
    by_cases empty : s = "" <;> simp [empty]
  · obtain ⟨rfl, rfl⟩ := Prod.mk.inj same
    simp [String.toList_inj]
    decide

end Spaces

/-! ## Expanded names -/

/-- A name with its namespace and its label. -/
structure Expansion (name : String) (uri : Option String) (label : String) : Prop where
  name_eq : name = uri.elim label (expanded · label)
  declarable : ∀ u ∈ uri, Spaces.Declarable u
  uri_chars : ∀ u ∈ uri, u.toList.all isMarkupChar = true
  label_ne : label ≠ ""
  label_chars : ∀ c ∈ label.toList, isNameChar c = true

variable {name label : String} {uri? : Option String} {met : Spaces} {names : List String}

theorem toList_expanded (uri label : String) :
    (expanded uri label).toList = '\x7b' :: (uri.toList ++ '\x7d' :: label.toList) := by
  simp [expanded]

theorem splitName_expanded (uri : String) (closing : '\x7d' ∉ label.toList) :
    splitName (expanded uri label) = .ok (some uri, label) := by
  have cut : Text.cutAtChar? '\x7d' (uri.toList ++ '\x7d' :: label.toList).reverse =
      some (label.toList.reverse, uri.toList.reverse) := by
    rw [List.reverse_append, List.reverse_cons, List.append_assoc]
    exact Text.cutAtChar?_append (by simpa using closing) _
  rw [splitName, toList_expanded]
  simp only [cut]
  simp

namespace Expansion

theorem splitName_eq (expansion : Expansion name uri? label) : splitName name = .ok (uri?, label) := by
  cases uri? with
  | none =>
      obtain rfl : name = label := expansion.name_eq
      have first : name.toList.head? ≠ some '\x7b' := by
        intro start
        exact absurd (expansion.label_chars _ (List.mem_of_head? start)) (by decide)
      rw [splitName]
      split
      case h_1 start => simp [start] at first
      case h_2 => rfl
  | some uri =>
      obtain rfl : name = expanded uri label := expansion.name_eq
      exact splitName_expanded uri fun mem => absurd (expansion.label_chars _ mem) (by decide)

theorem localName_eq (expansion : Expansion name uri? label) : localName name = label := by
  cases uri? with
  | none =>
      obtain rfl : name = label := expansion.name_eq
      have first : name.toList.head? ≠ some '\x7b' := by
        intro start
        exact absurd (expansion.label_chars _ (List.mem_of_head? start)) (by decide)
      rw [localName]
      split
      case h_1 start => simp [start] at first
      case h_2 => rfl
  | some uri =>
      obtain rfl : name = expanded uri label := expansion.name_eq
      have cut := Text.cutAtChar?_append (expansion.declarable uri rfl).closed label.toList
      rw [localName, toList_expanded]
      simp [cut]

end Expansion

/-! ## Names as they are written -/

namespace Spaces

/-- The name with its short form, if it gets one. -/
def written (met : Spaces) (parts : Option String × String) : QName :=
  match parts with
  | (none, label) => ⟨none, label.toList⟩
  | (some uri, label) =>
    ⟨if met.shortForm uri = "" then none else some (met.shortForm uri).toList, label.toList⟩

theorem write_eq (met : Spaces) (name : String) :
    met.write name = (splitName name).map fun parts => (met.written parts).spelling := by
  rw [write]
  generalize splitName name = split
  cases split with
  | error e => rfl
  | ok parts =>
      obtain ⟨uri?, label⟩ := parts
      cases uri? with
      | none => rfl
      | some uri =>
          by_cases empty : met.shortForm uri = "" <;>
            simp [bind, Except.bind, pure, Except.pure, Except.map, written, QName.spelling, empty]

/-- A name in a namespace that was met is bound to this namespace. -/
theorem Meets.lookup_written (meets : Meets names met) (mem : name ∈ names) {uri : String}
    (parts : splitName name = .ok (some uri, label)) :
    met.bindings.lookup (met.written (some uri, label)).space = some uri.toList := by
  rcases meets.covered name mem uri label parts with rfl | declared
  · have xml := meets.sound.shortForm_eq_xml_iff.mpr rfl
    simp only [written, xml]
    exact meets.sound.lookup_xml
  · obtain ⟨⟨u, short⟩, there, rfl⟩ := List.mem_map.mp declared
    simp only [written, meets.sound.shortForm_of_mem there]
    exact meets.sound.lookup_short there

/-- The name that an attribute is read back with, unless it is in the namespace that needs no short form. -/
theorem Meets.attributeName?_written (meets : Meets names met) (mem : name ∈ names)
    (expansion : Expansion name uri? label) :
    met.bindings.attributeName? (met.written (uri?, label)) =
      some (if uri? = some svgNamespace then label else name) := by
  cases uri? with
  | none =>
      obtain rfl : name = label := expansion.name_eq
      simp [Bindings.attributeName?, written]
  | some uri =>
      have bound := meets.lookup_written mem expansion.splitName_eq
      have svg := meets.sound.svg_iff bound
      obtain rfl : name = expanded uri label := expansion.name_eq
      have filled : uri.toList ≠ [] := by
        rw [Ne, String.toList_eq_nil_iff]
        exact (expansion.declarable uri rfl).filled
      have own : (met.written (some uri, label)).label = label.toList := rfl
      rw [Bindings.attributeName?]
      cases space : (met.written (some uri, label)).space with
      | none =>
          rw [space, eq_self, true_iff, String.toList_inj] at svg
          subst svg
          simp [own]
      | some short =>
          rw [space] at bound svg
          have other : uri ≠ svgNamespace := fun same => by
            rw [same, eq_self, iff_true] at svg
            cases svg
          simp [bound, QName.expand, filled, own, other]

/-- An element keeps its local name. -/
theorem Meets.elementName?_written (meets : Meets names met) (mem : name ∈ names)
    (expansion : Expansion name uri? label) :
    ∃ back, met.bindings.elementName? (met.written (uri?, label)) = some back ∧ localName back = localName name := by
  have chars : Expansion label none label := ⟨rfl, by simp, by simp, expansion.label_ne, expansion.label_chars⟩
  cases uri? with
  | none =>
      have space : (met.written (none, label)).space = none := rfl
      have own : (met.written (none, label)).label = label.toList := rfl
      rw [Bindings.elementName?, space, own, expansion.localName_eq]
      cases bound : met.bindings.lookup none with
      | none => exact ⟨label, by simp, chars.localName_eq⟩
      | some uri =>
          have svg := (meets.sound.svg_iff bound).mp rfl
          have good : Expansion (expanded svgNamespace label) (some svgNamespace) label :=
            ⟨rfl, by rintro _ ⟨⟩; decide, by rintro _ ⟨⟩; decide, expansion.label_ne, expansion.label_chars⟩
          have filled : svgNamespace.toList ≠ [] := by decide
          refine ⟨expanded svgNamespace label, ?_, good.localName_eq⟩
          simp [svg, QName.expand, filled, own]
  | some uri =>
      have bound := meets.lookup_written mem expansion.splitName_eq
      have own : (met.written (some uri, label)).label = label.toList := rfl
      have filled : uri.toList ≠ [] := by
        rw [Ne, String.toList_eq_nil_iff]
        exact (expansion.declarable uri rfl).filled
      refine ⟨name, ?_, rfl⟩
      obtain rfl : name = expanded uri label := expansion.name_eq
      rw [Bindings.elementName?, bound]
      simp [QName.expand, filled, own]

/-- A name in a namespace that was met is written behind a label other than the one that declares namespaces. -/
theorem Meets.isLabel_space_written (meets : Meets names met) (mem : name ∈ names)
    {parts : Option String × String} (split : splitName name = .ok parts) {space : List Char}
    (spaced : (met.written parts).space = some space) : isLabel space = true ∧ space ≠ "xmlns".toList := by
  obtain ⟨uri?, label⟩ := parts
  cases uri? with
  | none => cases spaced
  | some uri =>
      rcases meets.covered name mem uri label split with rfl | declared
      · have xml := meets.sound.shortForm_eq_xml_iff.mpr rfl
        simp only [written, xml] at spaced
        obtain rfl := Option.some.inj spaced
        decide
      · obtain ⟨⟨u, short⟩, there, rfl⟩ := List.mem_map.mp declared
        simp only [written, meets.sound.shortForm_of_mem there] at spaced
        split at spaced
        case isTrue => cases spaced
        case isFalse some =>
          obtain rfl := Option.some.inj spaced
          exact ⟨meets.sound.isLabel_short there some, fun same =>
            meets.sound.short_ne_xmlns there (String.toList_inj.mp same)⟩

theorem label_written (parts : Option String × String) : (met.written parts).label = parts.2.toList := by
  obtain ⟨uri?, label⟩ := parts
  cases uri? <;> rfl

theorem Meets.readable_written (meets : Meets names met) (mem : name ∈ names) (expansion : Expansion name uri? label) :
    (met.written (uri?, label)).IsReadable where
  label_ne := by
    rw [label_written, Ne, String.toList_eq_nil_iff]
    exact expansion.label_ne
  label_chars := by
    rw [label_written]
    exact expansion.label_chars
  space := fun _ spaced => (meets.isLabel_space_written mem expansion.splitName_eq spaced).1

end Spaces

end SvgForm.Xml
