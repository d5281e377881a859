import SvgForm.Proofs.Forest.Alike
import SvgForm.Proofs.Xml.Reread
import SvgForm.Proofs.Xml.Spaces
/-! # What the markup of a tree is read as

The markup of a tree declares the namespaces of the tree at its root. It is read as a tree of the same shape, or
not at all, and whether an element can be read is told from its names and characters alone.
-/

namespace SvgForm.Xml

/-! ## Names in their place -/

/-- The bindings inside an element with these attributes. -/
def Bindings.declareAll? (b : Bindings) (all : List (QName × List Char)) : Option Bindings :=
  all.foldlM (fun b (q, value) => if q.declaresNamespace then b.declare? q value else some b) b

/-- An element made from a draft with these attributes. -/
structure Draft.Resolved (all : List (QName × List Char)) (b : Bindings) (e : Draft) (made : Element)
    (inner : Bindings) : Prop where
  bound : b.declareAll? all = some inner
  name : inner.elementName? e.name = some made.name
  attributes : List.Forall₂ (fun a a' => inner.attributeName? a.1 = some a'.1 ∧ a'.2 = String.ofList a.2)
    (all.filter fun a => !a.1.declaresNamespace) made.attributes
  distinct : (made.attributes.map Prod.fst).Nodup
  text : made.text = .ofList e.text
  tail : made.tail = .ofList e.tail

variable {d : Declarations} {b inner : Bindings} {e : Draft} {made : Element}

theorem Draft.resolve?_eq_some_iff : e.resolve? d b = some (made, inner) ↔
    ∃ all, d.attributesOf? e = some all ∧ e.Resolved all b made inner := by
  have names (inner : Bindings) (own : List (QName × List Char)) (attributes : List (String × String)) :
      own.mapM (fun a => (inner.attributeName? a.1).bind fun name => some (name, String.ofList a.2)) =
          some attributes ↔
        List.Forall₂ (fun a a' => inner.attributeName? a.1 = some a'.1 ∧ a'.2 = String.ofList a.2) own
          attributes := by
    rw [mapM_eq_some_iff]
    refine iff_of_eq (congrArg (List.Forall₂ · own attributes) ?_)
    funext a a'
    cases inner.attributeName? a.1 <;> simp [Prod.ext_iff, eq_comm]
  simp only [resolve?, Option.bind_eq_bind, Option.pure_def, Option.bind_eq_some_iff, names]
  constructor
  · rintro ⟨all, given, inner, bound, name, named, attributes, related, made⟩
    split at made
    case isTrue => simp at made
    case isFalse distinct =>
      simp only [Bool.not_eq_true', decide_eq_false_iff_not, not_not] at distinct
      obtain ⟨rfl, rfl⟩ := Prod.mk.inj (Option.some.inj made)
      exact ⟨all, given, bound, named, related, distinct, rfl, rfl⟩
  · rintro ⟨all, given, resolved⟩
    refine ⟨all, given, inner, resolved.bound, made.name, resolved.name, made.attributes, resolved.attributes, ?_⟩
    obtain ⟨name, attributes, text, tail⟩ := made
    obtain ⟨-, -, -, distinct, rfl, rfl⟩ := resolved
    simp [distinct]

theorem resolveAll?_node_iff {children siblings : Forest Draft} {f : Forest Element} :
    resolveAll? d b (.node e children siblings) = some f ↔ ∃ made inner below after,
      e.resolve? d b = some (made, inner) ∧ resolveAll? d inner children = some below ∧
        resolveAll? d b siblings = some after ∧ f = .node made below after := by
  simp only [resolveAll?, Option.bind_eq_bind, Option.pure_def, Option.bind_eq_some_iff, Option.some.injEq]
  constructor
  · rintro ⟨⟨made, inner⟩, own, below, children, after, siblings, rfl⟩
    exact ⟨made, inner, below, after, own, children, siblings, rfl⟩
  · rintro ⟨made, inner, below, after, own, children, siblings, rfl⟩
    exact ⟨⟨made, inner⟩, own, below, children, after, siblings, rfl⟩

/-! ## Line ends in names and texts -/

section

variable {p : Char → Bool} {w s : List Char} {t : String}

theorem all_normalizeNewlines (marks : p '\r' = p '\n') (s : List Char) : (normalizeNewlines s).all p = s.all p := by
  fun_induction normalizeNewlines s with
  | case1 => rfl
  | case2 s ih => simp [ih, marks]
  | case3 s _ ih => simp [ih, marks]
  | case4 c s _ _ ih => simp [ih]

theorem dropWhile_normalizeNewlines (marks : p '\r' = p '\n') (s : List Char) :
    (normalizeNewlines s).dropWhile p = normalizeNewlines (s.dropWhile p) := by
  fun_induction normalizeNewlines s with
  | case1 => rfl
  | case2 s ih =>
      cases accepted : p '\n' with
      | false => simp [accepted, marks, normalizeNewlines]
      | true => simp [accepted, marks, ih]
  | case3 s other ih =>
      cases accepted : p '\n' with
      | false =>
          rw [List.dropWhile_cons_of_neg (by simp [accepted]), List.dropWhile_cons_of_neg (by simp [accepted, marks]),
            normalizeNewlines]
          exact other
      | true => simp [accepted, marks, ih]
  | case4 c s _ other ih =>
      cases accepted : p c with
      | false =>
          rw [List.dropWhile_cons_of_neg (by simp [accepted]), List.dropWhile_cons_of_neg (by simp [accepted]),
            normalizeNewlines_cons (by simpa using other)]
      | true => simp [accepted, ih]

theorem takeWhile_normalizeNewlines (marks : p '\r' = false ∧ p '\n' = false) (s : List Char) :
    (normalizeNewlines s).takeWhile p = s.takeWhile p := by
  fun_induction normalizeNewlines s with
  | case1 => rfl
  | case2 s ih => simp [marks]
  | case3 s _ ih => simp [marks]
  | case4 c s _ _ ih => simp [List.takeWhile_cons, ih]

theorem label?_normalizeNewlines (w : List Char) :
    label? (normalizeNewlines w) = (label? w).map fun (a, rest) => (a, normalizeNewlines rest) := by
  have marks : isNameChar '\r' = false ∧ isNameChar '\n' = false := by decide
  fun_cases normalizeNewlines w with
  | case1 => rfl
  | case2 s => rfl
  | case3 s => rfl
  | case4 c s =>
      rw [label?, label?, takeWhile_normalizeNewlines marks,
        dropWhile_normalizeNewlines (marks.1.trans marks.2.symm)]
      split <;> rfl

theorem qname?_normalizeNewlines (w : List Char) :
    qname? (normalizeNewlines w) = (qname? w).map fun (q, rest) => (q, normalizeNewlines rest) := by
  rw [qname?, qname?, label?_normalizeNewlines]
  cases label? w with
  | none => rfl
  | some found =>
      obtain ⟨a, rest⟩ := found
      simp only [Option.map_some]
      cases rest with
      | nil => rfl
      | cons x more =>
          by_cases colon : x = ':'
          · subst colon
            rw [normalizeNewlines_cons (by decide)]
            simp only [label?_normalizeNewlines, Option.map_map, Function.comp_def]
          · have other : ∀ s, normalizeNewlines (x :: more) ≠ ':' :: s := by
              intro s same
              by_cases return_ : x = '\r'
              · subst return_
                unfold normalizeNewlines at same
                split at same <;> simp_all
              · rw [normalizeNewlines_cons return_] at same
                exact colon (List.cons.inj same).1
            split
            case h_1 same => exact absurd (Prod.mk.inj (Option.some.inj same)).2 (other _)
            case h_2 same =>
              obtain ⟨rfl, rfl⟩ := Prod.mk.inj (Option.some.inj same)
              simp [colon]
            case h_3 same => cases same

/-- A name is read alike before and after line ends are made newlines. -/
theorem readName?_normalizeNewlines (w : List Char) : readName? (normalizeNewlines w) = readName? w := by
  have space : isSpace '\r' = isSpace '\n' := by decide
  rw [readName?, readName?, dropWhile_normalizeNewlines space, qname?_normalizeNewlines]
  cases qname? (w.dropWhile isSpace) with
  | none => rfl
  | some found => simp only [Option.map_some, all_normalizeNewlines space]

theorem readAttribute?_normalizeNewlines (a : List Char × String) :
    readAttribute? (normalizeNewlines a.1, a.2) = readAttribute? a := by
  rw [readAttribute?, readAttribute?, readName?_normalizeNewlines]

theorem readText?_normalText (t : String) : readText? (normalText t) = (readText? t).map normalizeNewlines := by
  rw [readText?, readText?, normalText, Text.onChars, String.toList_ofList, all_normalizeNewlines (by decide)]
  split <;> rfl

end

/-! ## Elements as they are read -/

/-- How the element is read, where namespaces are bound so inside it. -/
structure Spelled.ReadAs (b : Bindings) (s : Spelled) (made : Element) : Prop where
  name : b.elementName? s.name = some made.name
  attributes : List.Forall₂ (fun a a' => (readName? a.1).bind b.attributeName? = some a'.1 ∧ a'.2 = a.2) s.attributes
    made.attributes
  apart : (s.attributes.map fun a => readName? a.1).Nodup
  distinct : (made.attributes.map Prod.fst).Nodup
  values : ∀ a ∈ s.attributes, a.2.toList.all isMarkupChar = true
  text : s.text.toList.all isMarkupChar = true ∧ made.text = normalText s.text
  tail : s.tail.toList.all isMarkupChar = true ∧ made.tail = normalText s.tail

/-- The element with declarations before its attributes. -/
def Spelled.declaring (s : Spelled) (declared : List (QName × String)) : Spelled :=
  { s with attributes := declared.map (fun a => (a.1.spelling, a.2)) ++ s.attributes }

/-- An attribute whose name is read. -/
def Reads (a : List Char × String) (a' : QName × String) : Prop :=
  readName? a.1 = some a'.1 ∧ a'.2 = a.2

variable {s : Spelled} {declared own : List (QName × String)}

theorem readName?_spelling {q : QName} (proper : q.IsProper) : readName? q.spelling = some q := by
  obtain ⟨c, s, name, start⟩ := proper.spelling_cons
  have dark : isSpace c = false := by
    by_contra blank
    simp only [isSpace, Bool.or_eq_true, decide_eq_true_eq, Bool.not_eq_false] at blank
    rcases blank with ((rfl | rfl) | rfl) | rfl <;> exact absurd start (by decide)
  have read := qname?_spelling (r := []) proper (by simp)
  rw [List.append_nil] at read
  rw [readName?, name, List.dropWhile_cons_of_neg (by simp [dark]), ← name, read]
  rfl

theorem forall₂_reads_spelling (proper : ∀ a ∈ declared, a.1.IsProper) :
    List.Forall₂ Reads (declared.map fun a => (a.1.spelling, a.2)) own ↔ own = declared := by
  rw [List.forall₂_map_left_iff]
  constructor
  · intro read
    induction read with
    | nil => rfl
    | @cons a a' _ _ first _ ih =>
        obtain ⟨here, later⟩ := List.forall_mem_cons.mp proper
        rw [ih later, Prod.ext_iff.mpr ⟨Option.some.inj (first.1.symm.trans (readName?_spelling here)), first.2⟩]
  · rintro rfl
    exact List.forall₂_same.mpr fun a mem => ⟨readName?_spelling (proper a mem), rfl⟩

theorem mapM_readAttribute?_eq_some_iff {l : List (List Char × String)} {read : List (QName × List Piece)} :
    l.mapM readAttribute? = some read ↔ ∃ own, List.Forall₂ Reads l own ∧
      (∀ a ∈ l, a.2.toList.all isMarkupChar = true) ∧ read = own.map fun a => (a.1, a.2.toList.map .char) := by
  rw [mapM_eq_some_iff]
  constructor
  · intro related
    induction related with
    | nil => exact ⟨[], .nil, by simp, rfl⟩
    | @cons a found _ _ first _ ih =>
        obtain ⟨own, reads, chars, rfl⟩ := ih
        obtain ⟨name, good, pieces⟩ := of_readAttribute? first
        exact ⟨(found.1, a.2) :: own, .cons ⟨name, rfl⟩ reads, List.forall_mem_cons.mpr ⟨good, chars⟩,
          by rw [List.map_cons, ← pieces]⟩
  · rintro ⟨own, reads, chars, rfl⟩
    induction reads with
    | nil => exact .nil
    | cons first _ ih =>
        obtain ⟨good, chars⟩ := List.forall_mem_cons.mp chars
        refine .cons ?_ (ih chars)
        simp [readAttribute?, first.1, first.2, good]

theorem Spelled.draft?_normal_eq_some_iff : s.normal.draft? = some e ↔ ∃ own, List.Forall₂ Reads s.attributes own ∧
    (∀ a ∈ s.attributes, a.2.toList.all isMarkupChar = true) ∧ s.text.toList.all isMarkupChar = true ∧
      s.tail.toList.all isMarkupChar = true ∧
        e = ⟨s.name, own.map fun a => (a.1, a.2.toList.map .char), normalizeNewlines s.text.toList,
          normalizeNewlines s.tail.toList⟩ := by
  have texts (t : String) (text : List Char) :
      readText? t = some text ↔ t.toList.all isMarkupChar = true ∧ text = t.toList := by
    rw [readText?]
    split
    case isTrue good => rw [and_iff_right good, Option.some.injEq, eq_comm]
    case isFalse bad => simp [bad]
  have same : s.normal.attributes.mapM readAttribute? = s.attributes.mapM readAttribute? := by
    rw [normal, List.mapM_map]
    exact congrArg (s.attributes.mapM ·) (funext readAttribute?_normalizeNewlines)
  rw [draft?, same]
  simp only [normal, readText?_normalText, Option.bind_eq_some_iff, Option.map_eq_some_iff, texts,
    mapM_readAttribute?_eq_some_iff]
  constructor
  · rintro ⟨_, ⟨own, reads, values, rfl⟩, _, ⟨_, ⟨text, rfl⟩, rfl⟩, _, ⟨_, ⟨tail, rfl⟩, rfl⟩, rfl⟩
    exact ⟨own, reads, values, text, tail, rfl⟩
  · rintro ⟨own, reads, values, text, tail, rfl⟩
    exact ⟨_, ⟨own, reads, values, rfl⟩, _, ⟨_, ⟨text, rfl⟩, rfl⟩, _, ⟨_, ⟨tail, rfl⟩, rfl⟩, rfl⟩

/-- No attribute is read as the declaration of a namespace. -/
def Spelled.Silent (s : Spelled) : Prop :=
  ∀ a ∈ s.attributes, ∀ q, readName? a.1 = some q → q.declaresNamespace = false

theorem Declarations.value?_chars (d : Declarations) (v : List Char) : d.value? (v.map .char) = some v := by
  rw [value?, expandValue, List.mapM_map]
  have chars : v.mapM (fun c => some [c]) = some (v.map fun c => [c]) := by
    rw [mapM_eq_some_iff, List.forall₂_map_right_iff, List.forall₂_same]
    exact fun _ _ => rfl
  refine (congrArg (Option.map List.flatten) chars).trans ?_
  rw [Option.map_some, ← List.flatMap_def, List.flatMap_singleton']

theorem attributesOf?_chars (none : d.attributes = []) {l : List (QName × String)}
    (given : e.attributes = l.map fun a => (a.1, a.2.toList.map .char)) :
    d.attributesOf? e = if (l.map Prod.fst).Nodup then some (l.map fun a => (a.1, a.2.toList)) else .none := by
  have names : e.attributes.map Prod.fst = l.map Prod.fst := by simp [given]
  have values : e.attributes.mapM (fun x => (d.value? x.2).bind fun value => some (x.1, value)) =
      some (l.map fun a => (a.1, a.2.toList)) := by
    rw [given, List.mapM_map, mapM_eq_some_iff, List.forall₂_map_right_iff, List.forall₂_same]
    intro a _
    simp [d.value?_chars]
  simp only [Declarations.attributesOf?, names, none, List.filter_nil, List.find?_nil, Option.any_none,
    Bool.false_eq_true, if_false, List.filterMap_nil, List.append_nil, Option.bind_eq_bind, Option.pure_def, values]
  by_cases distinct : (l.map Prod.fst).Nodup <;> simp [distinct]

theorem declareAll?_append (b : Bindings) (l l' : List (QName × List Char)) :
    b.declareAll? (l ++ l') = (b.declareAll? l).bind (·.declareAll? l') :=
  List.foldlM_append ..

theorem declareAll?_of_silent {l : List (QName × List Char)} (silent : ∀ a ∈ l, a.1.declaresNamespace = false)
    (b : Bindings) : b.declareAll? l = some b := by
  induction l with
  | nil => rfl
  | cons a l ih =>
      obtain ⟨here, later⟩ := List.forall_mem_cons.mp silent
      rw [Bindings.declareAll?, List.foldlM_cons]
      simp only [here, Bool.false_eq_true, if_false]
      exact ih later

theorem nodup_of_reads {l : List (List Char × String)} (reads : List.Forall₂ Reads l own) :
    (l.map fun a => readName? a.1).Nodup ↔ (own.map Prod.fst).Nodup := by
  have names : l.map (fun a => readName? a.1) = (own.map Prod.fst).map some := by
    induction reads with
    | nil => rfl
    | cons first _ ih => rw [List.map_cons, List.map_cons, List.map_cons, first.1, ih]
  rw [names, List.nodup_map_iff fun _ _ => Option.some.inj]

/-- Declarations bind what is inside an element, and the other attributes are named by that. -/
theorem resolved_append_iff (loud : ∀ a ∈ declared, a.1.declaresNamespace = true)
    (quiet : ∀ a ∈ own, a.1.declaresNamespace = false) :
    e.Resolved ((declared ++ own).map fun a => (a.1, a.2.toList)) b made inner ↔
      b.declareAll? (declared.map fun a => (a.1, a.2.toList)) = some inner ∧
        inner.elementName? e.name = some made.name ∧
          List.Forall₂ (fun a a' => inner.attributeName? a.1 = some a'.1 ∧ a'.2 = a.2) own made.attributes ∧
            (made.attributes.map Prod.fst).Nodup ∧ made.text = .ofList e.text ∧ made.tail = .ofList e.tail := by
  have silent : ∀ a ∈ own.map fun a => (a.1, a.2.toList), a.1.declaresNamespace = false :=
    List.forall_mem_map.mpr quiet
  have dropped : (declared.map fun a => (a.1, a.2.toList)).filter (fun a => !a.1.declaresNamespace) = [] :=
    List.filter_eq_nil_iff.mpr <| List.forall_mem_map.mpr fun a mem => by simp [loud a mem]
  have kept : (own.map fun a => (a.1, a.2.toList)).filter (fun a => !a.1.declaresNamespace) =
      own.map fun a => (a.1, a.2.toList) :=
    List.filter_eq_self.mpr fun a mem => by simp [silent a mem]
  have bound : b.declareAll? ((declared ++ own).map fun a => (a.1, a.2.toList)) =
      b.declareAll? (declared.map fun a => (a.1, a.2.toList)) := by
    rw [List.map_append, declareAll?_append]
    cases b.declareAll? (declared.map fun a => (a.1, a.2.toList)) with
    | none => rfl
    | some inner => exact declareAll?_of_silent silent inner
  have named : List.Forall₂ (fun a a' => inner.attributeName? a.1 = some a'.1 ∧ a'.2 = String.ofList a.2)
      (((declared ++ own).map fun a => (a.1, a.2.toList)).filter fun a => !a.1.declaresNamespace) made.attributes ↔
        List.Forall₂ (fun a a' => inner.attributeName? a.1 = some a'.1 ∧ a'.2 = a.2) own made.attributes := by
    rw [List.map_append, List.filter_append, dropped, kept, List.nil_append, List.forall₂_map_left_iff]
    simp
  constructor
  · rintro ⟨opened, name, attributes, distinct, text, tail⟩
    exact ⟨bound ▸ opened, name, named.mp attributes, distinct, text, tail⟩
  · rintro ⟨opened, name, attributes, distinct, text, tail⟩
    exact ⟨bound.trans opened, name, named.mpr attributes, distinct, text, tail⟩

/-- An element is read apart from the declarations before its attributes, which bind what is inside it. -/
theorem Spelled.resolve_iff (none : d.attributes = []) (silent : s.Silent)
    (proper : ∀ a ∈ declared, a.1.IsProper ∧ a.1.declaresNamespace = true) (distinct : (declared.map Prod.fst).Nodup) :
    (∃ e, (s.declaring declared).normal.draft? = some e ∧ e.resolve? d b = some (made, inner)) ↔
      (∀ a ∈ declared, a.2.toList.all isMarkupChar = true) ∧
        b.declareAll? (declared.map fun a => (a.1, a.2.toList)) = some inner ∧ s.ReadAs inner made := by
  have loud := fun a mem => (proper a mem).2
  have names {first : List (QName × String)} :
      List.Forall₂ Reads (declared.map fun a => (a.1.spelling, a.2)) first ↔ first = declared :=
    forall₂_reads_spelling fun a mem => (proper a mem).1
  have quiet {own : List (QName × String)} (reads : List.Forall₂ Reads s.attributes own) :
      ∀ a ∈ own, a.1.declaresNamespace = false := by
    intro a mem
    obtain ⟨a', there, read⟩ := exists_of_mem_right reads mem
    exact silent a' there _ read.1
  have apart {own : List (QName × String)} (reads : List.Forall₂ Reads s.attributes own) :
      ((declared ++ own).map Prod.fst).Nodup ↔ (s.attributes.map fun a => readName? a.1).Nodup := by
    have disjoint : (declared.map Prod.fst).Disjoint (own.map Prod.fst) := by
      intro q there mem
      obtain ⟨a, here, rfl⟩ := List.mem_map.mp there
      obtain ⟨a', mem, same⟩ := List.mem_map.mp mem
      have quiet := quiet reads a' mem
      rw [same, loud a here] at quiet
      cases quiet
    rw [nodup_of_reads reads, List.map_append, List.nodup_append', and_iff_right distinct, and_iff_left disjoint]
  have values : (∀ a ∈ (s.declaring declared).attributes, a.2.toList.all isMarkupChar = true) ↔
      (∀ a ∈ declared, a.2.toList.all isMarkupChar = true) ∧
        ∀ a ∈ s.attributes, a.2.toList.all isMarkupChar = true := by
    rw [declaring, List.forall_mem_append, List.forall_mem_map]
  simp only [draft?_normal_eq_some_iff, values, Draft.resolve?_eq_some_iff]
  constructor
  · rintro ⟨_, ⟨all, both, chars, text, tail, rfl⟩, all', given, resolved⟩
    obtain ⟨first, own, declares, reads, rfl⟩ := forall₂_append_left_iff.mp both
    obtain rfl := names.mp declares
    rw [attributesOf?_chars none rfl] at given
    split at given
    case isFalse => cases given
    case isTrue nodup =>
      obtain rfl := Option.some.inj given
      obtain ⟨bound, name, attributes, once, same, same'⟩ := (resolved_append_iff loud (quiet reads)).mp resolved
      refine ⟨chars.1, bound, name, ?_, (apart reads).mp nodup, once, chars.2, ⟨text, same⟩, ⟨tail, same'⟩⟩
      refine (exists_forall₂_iff.mp ⟨own, reads, attributes⟩).imp ?_
      rintro a a' ⟨q, read, named⟩
      rw [read.1, Option.bind_some]
      exact ⟨named.1, named.2.trans read.2⟩
  · rintro ⟨chars, bound, readAs⟩
    have composed : List.Forall₂ (fun a a' => ∃ q : QName × String, Reads a q ∧
        (inner.attributeName? q.1 = some a'.1 ∧ a'.2 = q.2)) s.attributes made.attributes := by
      refine readAs.attributes.imp ?_
      rintro a a' ⟨named, value⟩
      obtain ⟨q, read, name⟩ := Option.bind_eq_some_iff.mp named
      exact ⟨(q, a.2), ⟨read, rfl⟩, name, value⟩
    obtain ⟨own, reads, attributes⟩ := exists_forall₂_iff.mpr composed
    refine ⟨_, ⟨declared ++ own, forall₂_append_left_iff.mpr ⟨_, _, names.mpr rfl, reads, rfl⟩,
      ⟨chars, readAs.values⟩, readAs.text.1, readAs.tail.1, rfl⟩, (declared ++ own).map fun a => (a.1, a.2.toList),
      ?_, ?_⟩
    · rw [attributesOf?_chars none rfl, if_pos ((apart reads).mpr readAs.apart)]
    · exact (resolved_append_iff loud (quiet reads)).mpr ⟨bound, readAs.name, attributes, readAs.distinct,
        readAs.text.2, readAs.tail.2⟩

/-! ## Trees as they are read -/

variable {f : Forest Spelled} {g : Forest Element}

/-- What trees are read as, where namespaces are bound so. -/
def reread? (d : Declarations) (b : Bindings) (f : Forest Spelled) : Option (Forest Element) :=
  (drafts? (f.map Spelled.normal)).bind (resolveAll? d b)

theorem reread?_nil_iff : reread? d b .nil = some g ↔ g = .nil := by
  have none : reread? d b .nil = some .nil := rfl
  rw [none, Option.some.injEq, eq_comm]

theorem reread?_node_iff {children siblings : Forest Spelled} :
    reread? d b (.node s children siblings) = some g ↔ ∃ made inner below after,
      (∃ e, s.normal.draft? = some e ∧ e.resolve? d b = some (made, inner)) ∧
        reread? d inner children = some below ∧ reread? d b siblings = some after ∧ g = .node made below after := by
  simp only [reread?, Forest.map, drafts?, Option.bind_eq_some_iff, Option.map_eq_some_iff]
  constructor
  · rintro ⟨_, ⟨e, draft, c, inside, t, later, rfl⟩, all⟩
    obtain ⟨made, inner, below, after, own, children, siblings, rfl⟩ := resolveAll?_node_iff.mp all
    exact ⟨made, inner, below, after, ⟨e, draft, own⟩, ⟨c, inside, children⟩, ⟨t, later, siblings⟩, rfl⟩
  · rintro ⟨made, inner, below, after, ⟨e, draft, own⟩, ⟨c, inside, children⟩, ⟨t, later, siblings⟩, rfl⟩
    exact ⟨_, ⟨e, draft, c, inside, t, later, rfl⟩,
      resolveAll?_node_iff.mpr ⟨made, inner, below, after, own, children, siblings, rfl⟩⟩

/-- Trees without declarations are read element by element. -/
theorem reread?_eq_some_iff (none : d.attributes = []) (silent : ∀ s ∈ f.toList, s.Silent) :
    reread? d b f = some g ↔ f.Alike (Spelled.ReadAs b) g := by
  induction f generalizing g with
  | nil => rw [reread?_nil_iff, Forest.alike_nil_iff]
  | node s children siblings ihc ihs =>
      obtain ⟨own, inside⟩ := List.forall_mem_cons.mp silent
      obtain ⟨inside, later⟩ := List.forall_mem_append.mp inside
      have element (made : Element) (inner : Bindings) :=
        @Spelled.resolve_iff d b inner made s [] none own (by simp) (by simp)
      have plain : s.declaring [] = s := rfl
      have unbound (inner : Bindings) : b.declareAll? [] = some inner ↔ b = inner := Option.some.injEq b inner ▸ Iff.rfl
      simp only [plain, List.not_mem_nil, IsEmpty.forall_iff, implies_true, true_and, List.map_nil, unbound] at element
      simp only [reread?_node_iff, element, Forest.alike_node_iff, ihs later]
      constructor
      · rintro ⟨made, _, below, after, ⟨rfl, read⟩, children, siblings, rfl⟩
        exact ⟨made, below, after, read, (ihc inside).mp children, siblings, rfl⟩
      · rintro ⟨made, below, after, read, children, siblings, rfl⟩
        exact ⟨made, b, below, after, ⟨rfl, read⟩, (ihc inside).mpr children, siblings, rfl⟩

/-- A tree that declares namespaces at its root is read element by element, if these can be declared. -/
theorem reread?_declaring_iff (none : d.attributes = []) {children : Forest Spelled}
    (silent : ∀ x ∈ (Forest.node s children .nil).toList, x.Silent)
    (proper : ∀ a ∈ declared, a.1.IsProper ∧ a.1.declaresNamespace = true) (distinct : (declared.map Prod.fst).Nodup) :
    reread? d b (.node (s.declaring declared) children .nil) = some g ↔
      (∀ a ∈ declared, a.2.toList.all isMarkupChar = true) ∧
        ∃ inner, b.declareAll? (declared.map fun a => (a.1, a.2.toList)) = some inner ∧
          (Forest.node s children .nil).Alike (Spelled.ReadAs inner) g := by
  obtain ⟨own, inside⟩ := List.forall_mem_cons.mp silent
  have inside : ∀ x ∈ children.toList, x.Silent := fun x hx => inside x (List.mem_append_left _ hx)
  simp only [reread?_node_iff, Spelled.resolve_iff none own proper distinct, reread?_eq_some_iff none inside,
    reread?_nil_iff, Forest.alike_node_iff, Forest.alike_nil_iff]
  constructor
  · rintro ⟨made, inner, below, _, ⟨chars, bound, read⟩, children, rfl, rfl⟩
    exact ⟨chars, inner, bound, made, below, .nil, read, children, rfl, rfl⟩
  · rintro ⟨chars, inner, bound, made, below, _, read, children, rfl, rfl⟩
    exact ⟨made, inner, below, .nil, ⟨chars, bound, read⟩, children, rfl, rfl⟩

end SvgForm.Xml
