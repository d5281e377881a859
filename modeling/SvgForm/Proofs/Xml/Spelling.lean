import Mathlib.Data.List.Forall2
import Mathlib.Data.List.TakeWhile
import SvgForm.Proofs.Text.Cut
import SvgForm.Xml.Write
/-! # Names and attributes read back

What is written of a name or an attribute is read as a whole, because it ends where no name goes on. A name that
holds neither an equals sign nor an angle bracket is read in its place or spoils the tag; a value is escaped, and
is read back as long as markup may hold its characters.
-/

namespace SvgForm.Xml

section

variable {α : Type} {p : α → Bool} {l rest : List α}

theorem takeWhile_append_stop (stop : ∀ a ∈ rest.head?, p a = false) :
    (l ++ rest).takeWhile p = l.takeWhile p := by
  induction l with
  | nil =>
      cases rest with
      | nil => rfl
      | cons a rest => simp [stop a rfl]
  | cons a l ih =>
      cases accepted : p a with
      | true => simp [accepted, ih]
      | false => simp [accepted]

theorem dropWhile_append_stop (stop : ∀ a ∈ rest.head?, p a = false) :
    (l ++ rest).dropWhile p = l.dropWhile p ++ rest := by
  induction l with
  | nil =>
      cases rest with
      | nil => rfl
      | cons a rest => simp [stop a rfl]
  | cons a l ih =>
      cases accepted : p a with
      | true => simp [accepted, ih]
      | false => simp [accepted]

theorem mapM_eq_some_iff {β : Type} {f : α → Option β} {made : List β} :
    l.mapM f = some made ↔ List.Forall₂ (fun a b => f a = some b) l made := by
  induction l generalizing made with
  | nil => simp [eq_comm]
  | cons a l ih =>
      simp only [List.mapM_cons, Option.bind_eq_bind, Option.bind_eq_some_iff, Option.pure_def, Option.some.injEq,
        List.forall₂_cons_left_iff, ih]
      constructor
      · rintro ⟨b, first, more, later, rfl⟩
        exact ⟨b, more, first, later, rfl⟩
      · rintro ⟨b, more, first, later, rfl⟩
        exact ⟨b, first, more, later, rfl⟩

theorem exists_of_mem_right {β : Type} {R : α → β → Prop} {l' : List β} (related : List.Forall₂ R l l') {b : β}
    (mem : b ∈ l') : ∃ a ∈ l, R a b := by
  induction related with
  | nil => cases mem
  | cons first _ ih =>
      rcases List.mem_cons.mp mem with rfl | later
      · exact ⟨_, List.mem_cons_self, first⟩
      · obtain ⟨a, there, made⟩ := ih later
        exact ⟨a, List.mem_cons_of_mem _ there, made⟩

theorem exists_of_mem_mapM {β : Type} {f : α → Option β} {made : List β} (all : l.mapM f = some made) {b : β}
    (mem : b ∈ made) : ∃ a ∈ l, f a = some b :=
  exists_of_mem_right (mapM_eq_some_iff.mp all) mem

theorem forall₂_append_left_iff {β : Type} {R : α → β → Prop} {l' : List β} :
    List.Forall₂ R (l ++ rest) l' ↔ ∃ k k', List.Forall₂ R l k ∧ List.Forall₂ R rest k' ∧ l' = k ++ k' := by
  induction l generalizing l' with
  | nil => simp
  | cons a l ih =>
      simp only [List.cons_append, List.forall₂_cons_left_iff, ih]
      constructor
      · rintro ⟨b, _, first, ⟨k, k', before, after, rfl⟩, rfl⟩
        exact ⟨b :: k, k', ⟨b, k, first, before, rfl⟩, after, rfl⟩
      · rintro ⟨_, k', ⟨b, k, first, before, rfl⟩, after, rfl⟩
        exact ⟨b, k ++ k', first, ⟨k, k', before, after, rfl⟩, rfl⟩

theorem exists_forall₂_iff {β γ : Type} {R : α → β → Prop} {S : β → γ → Prop} {l' : List γ} :
    (∃ m, List.Forall₂ R l m ∧ List.Forall₂ S m l') ↔ List.Forall₂ (fun a c => ∃ b, R a b ∧ S b c) l l' := by
  induction l generalizing l' with
  | nil => simp
  | cons a l ih =>
      simp only [List.forall₂_cons_left_iff, ← ih]
      constructor
      · rintro ⟨_, ⟨b, m, first, later, rfl⟩, both⟩
        obtain ⟨c, k, second, more, rfl⟩ := List.forall₂_cons_left_iff.mp both
        exact ⟨c, k, ⟨b, first, second⟩, ⟨m, later, more⟩, rfl⟩
      · rintro ⟨c, k, ⟨b, first, second⟩, ⟨m, later, more⟩, rfl⟩
        exact ⟨b :: m, ⟨b, m, first, later, rfl⟩, .cons second more⟩

end

variable {c : Char} {w s r rest label : List Char} {q : QName}

/-! ## Labels -/

theorem isNameChar_of_isNameStart (start : isNameStart c = true) : isNameChar c = true := by
  unfold isNameStart at start
  unfold isNameChar
  split at start
  case isTrue ascii =>
    rw [if_pos ascii]
    simp only [Bool.or_eq_true, decide_eq_true_eq, Char.isAlphanum] at start ⊢
    tauto
  case isFalse wide => simp [wide, start]

theorem isNameStart_eq_false (other : isNameChar c = false) : isNameStart c = false :=
  Bool.eq_false_iff.mpr fun start => by simp [isNameChar_of_isNameStart start] at other

/-- Whether the text is a label: a character that starts names, and others that go on with them. -/
def isLabel : List Char → Bool
  | [] => false
  | c :: s => isNameStart c && s.all isNameChar

theorem label?_append (stop : ∀ x ∈ r.head?, isNameChar x = false) :
    label? (w ++ r) = (label? w).map fun (a, rest) => (a, rest ++ r) := by
  cases w with
  | nil =>
      cases r with
      | nil => rfl
      | cons x r => simp [label?, isNameStart_eq_false (stop x rfl)]
  | cons c w =>
      rw [List.cons_append, label?, label?, takeWhile_append_stop stop, dropWhile_append_stop stop]
      split <;> rfl

theorem label?_label (labelled : isLabel label = true) (stop : ∀ x ∈ r.head?, isNameChar x = false) :
    label? (label ++ r) = some (label, r) := by
  cases label with
  | nil => cases labelled
  | cons c s =>
      obtain ⟨start, more⟩ := Bool.and_eq_true_iff.mp labelled
      rw [List.all_eq_true] at more
      rw [label?_append stop, label?, if_pos start, List.takeWhile_eq_self_iff.mpr more,
        List.dropWhile_eq_nil_iff.mpr more]
      rfl

theorem of_label? (found : label? w = some (label, rest)) :
    isLabel label = true ∧ w = label ++ rest ∧ ∀ x ∈ rest.head?, isNameChar x = false := by
  cases w with
  | nil => cases found
  | cons c s =>
      rw [label?] at found
      split at found
      case isFalse => cases found
      case isTrue start =>
        obtain ⟨rfl, rfl⟩ := Prod.mk.inj (Option.some.inj found)
        refine ⟨?_, ?_, fun x hx => ?_⟩
        · rw [isLabel, start, Bool.true_and, List.all_eq_true]
          exact fun x hx => List.mem_takeWhile_imp hx
        · rw [List.cons_append, List.takeWhile_append_dropWhile]
        · have ends := List.head?_dropWhile_not isNameChar s
          rw [Option.mem_def.mp hx] at ends
          simpa using ends

/-- A name as it is written. -/
def QName.spelling (q : QName) : List Char :=
  match q.space with
  | none => q.label
  | some space => space ++ ':' :: q.label

theorem qname?_append (stop : ∀ x ∈ r.head?, isNameChar x = false ∧ x ≠ ':') :
    qname? (w ++ r) = (qname? w).map fun (q, rest) => (q, rest ++ r) := by
  have ends : ∀ x ∈ r.head?, isNameChar x = false := fun x hx => (stop x hx).1
  rw [qname?, qname?, label?_append ends]
  cases label? w with
  | none => rfl
  | some found =>
      obtain ⟨a, rest⟩ := found
      cases rest with
      | nil =>
          cases r with
          | nil => rfl
          | cons x r =>
              have other := (stop x rfl).2
              simp only [Option.map_some, List.nil_append]
              split
              case h_1 same => simp_all
              case h_2 same => simp_all
              case h_3 same => simp_all
      | cons x rest =>
          by_cases colon : x = ':'
          · subst colon
            simp only [Option.map_some, List.cons_append, label?_append ends, Option.map_map, Function.comp_def]
          · simp_all

/-- Whether the parts of a name are labels. -/
def QName.IsProper (q : QName) : Prop :=
  isLabel q.label = true ∧ ∀ space, q.space = some space → isLabel space = true

theorem isNameChar_of_mem_label (labelled : isLabel label = true) (mem : c ∈ label) : isNameChar c = true := by
  cases label with
  | nil => cases labelled
  | cons x s =>
      obtain ⟨start, more⟩ := Bool.and_eq_true_iff.mp labelled
      rcases List.mem_cons.mp mem with rfl | later
      · exact isNameChar_of_isNameStart start
      · exact List.all_eq_true.mp more c later

/-- The name is made of characters of names, and its short form is a label. -/
structure QName.IsReadable (q : QName) : Prop where
  label_ne : q.label ≠ []
  label_chars : ∀ c ∈ q.label, isNameChar c = true
  space : ∀ space, q.space = some space → isLabel space = true

theorem isLabel_ne (labelled : isLabel label = true) : label ≠ [] := by
  rintro rfl
  cases labelled

theorem QName.IsProper.readable (proper : q.IsProper) : q.IsReadable where
  label_ne := isLabel_ne proper.1
  label_chars := fun _ => isNameChar_of_mem_label proper.1
  space := proper.2

theorem QName.IsReadable.mem_spelling (readable : q.IsReadable) (mem : c ∈ q.spelling) :
    isNameChar c = true ∨ c = ':' := by
  obtain ⟨space, label⟩ := q
  cases space with
  | none => exact .inl (readable.label_chars c mem)
  | some space =>
      rcases List.mem_append.mp mem with inside | after
      · exact .inl (isNameChar_of_mem_label (readable.space space rfl) inside)
      · exact (List.mem_cons.mp after).symm.imp_left (readable.label_chars c)

/-- None of the characters is a mark that ends the name of an attribute. -/
theorem QName.IsReadable.marks (readable : q.IsReadable) : '=' ∉ q.spelling ∧ '>' ∉ q.spelling := by
  constructor <;> exact fun mem => absurd (readable.mem_spelling mem) (by decide)

theorem of_qname? (found : qname? w = some (q, rest)) : q.IsProper ∧ w = q.spelling ++ rest := by
  rw [qname?] at found
  split at found
  case h_1 a more first =>
    obtain ⟨⟨b, rest'⟩, second, same⟩ := Option.map_eq_some_iff.mp found
    obtain ⟨rfl, rfl⟩ := Prod.mk.inj same
    obtain ⟨space, rfl, -⟩ := of_label? first
    obtain ⟨label, rfl, -⟩ := of_label? second
    exact ⟨⟨label, fun _ same => Option.some.inj same ▸ space⟩, by simp [QName.spelling]⟩
  case h_2 a rest' _ first =>
    obtain ⟨rfl, rfl⟩ := Prod.mk.inj (Option.some.inj found)
    obtain ⟨label, rfl, -⟩ := of_label? first
    exact ⟨⟨label, fun _ same => by cases same⟩, rfl⟩
  case h_3 => cases found

theorem qname?_spelling (proper : q.IsProper) (stop : ∀ x ∈ r.head?, isNameChar x = false ∧ x ≠ ':') :
    qname? (q.spelling ++ r) = some (q, r) := by
  obtain ⟨space, label⟩ := q
  obtain ⟨labelled, spaced⟩ := proper
  have ends : ∀ x ∈ r.head?, isNameChar x = false := fun x hx => (stop x hx).1
  cases space with
  | none =>
      have first : label? (label ++ r) = some (label, r) := label?_label labelled ends
      simp only [QName.spelling, qname?, first]
      split
      case h_1 same => exact absurd rfl (stop ':' (by simp_all)).2
      case h_2 same => simp_all
      case h_3 same => cases same
  | some space =>
      have colon : ∀ x ∈ (':' :: (label ++ r)).head?, isNameChar x = false := by
        rintro x ⟨⟩
        decide
      simp only [QName.spelling, List.append_assoc, List.cons_append, qname?, label?_label (spaced space rfl) colon,
        label?_label labelled ends, Option.map_some]

/-! ## Names of attributes -/

/-- The name that a text is read as before an equals sign, white space around it apart. -/
def readName? (w : List Char) : Option QName :=
  match qname? (w.dropWhile isSpace) with
  | some (q, rest) => if rest.all isSpace then some q else none
  | none => none

/-- A text that is read as a name is that name with white space around it. -/
theorem of_readName? (read : readName? w = some q) :
    q.IsProper ∧ ∃ before after, w = before ++ (q.spelling ++ after) ∧ ∀ c ∈ before ++ after, isSpace c = true := by
  rw [readName?] at read
  split at read
  case h_1 rest found =>
    split at read
    case isTrue blank =>
      obtain rfl := Option.some.inj read
      obtain ⟨proper, split⟩ := of_qname? found
      refine ⟨proper, w.takeWhile isSpace, rest, by rw [← split, List.takeWhile_append_dropWhile], ?_⟩
      exact List.forall_mem_append.mpr ⟨fun _ => List.mem_takeWhile_imp, List.all_eq_true.mp blank⟩
    case isFalse => cases read
  case h_2 => cases read

theorem quote_not_mem_escapeValue (v : String) : '"' ∉ escapeValue v := by
  intro mem
  obtain ⟨c, -, here⟩ := List.mem_flatMap.mp mem
  unfold escapeValueChar escapeTextChar at here
  split at here
  case h_5 other _ _ _ =>
    split at here
    case h_4 => exact other (List.mem_singleton.mp here).symm
    all_goals simp at here
  all_goals simp at here

theorem writeAttribute_append (w : List Char) (v : String) (r : List Char) : writeAttribute w v ++ r =
    ' ' :: (w ++ '=' :: '"' :: (escapeValue v ++ '"' :: r)) := by
  simp [writeAttribute]

theorem attribute?_append (plain : '=' ∉ w) (v : String) (r : List Char) :
    attribute? (w.dropWhile isSpace ++ '=' :: '"' :: (escapeValue v ++ '"' :: r)) =
      (readName? w).bind fun q => (valuePieces? (escapeValue v)).map fun pieces => ((q, pieces), r) := by
  have cut := Text.cutAtChar?_append (quote_not_mem_escapeValue v) r
  have stop : ∀ x ∈ ('=' :: '"' :: (escapeValue v ++ '"' :: r)).head?, isNameChar x = false ∧ x ≠ ':' := by
    rintro x ⟨⟩
    decide
  have equals : ∀ x ∈ ('=' :: '"' :: (escapeValue v ++ '"' :: r)).head?, isSpace x = false := by
    rintro x ⟨⟩
    decide
  rw [attribute?, readName?, qname?_append stop]
  cases found : qname? (w.dropWhile isSpace) with
  | none => rfl
  | some result =>
      obtain ⟨q, rest⟩ := result
      simp only [Option.map_some]
      have within : '=' ∉ rest := fun mem => by
        obtain ⟨-, parts⟩ := of_qname? found
        have suffix : rest <:+ w := ((List.suffix_append q.spelling rest).trans (parts ▸ List.suffix_refl _)).trans
          (List.dropWhile_suffix isSpace)
        exact plain (suffix.subset mem)
      rw [afterEquals?, dropWhile_append_stop equals]
      cases left : rest.dropWhile isSpace with
      | nil =>
          have blank : rest.all isSpace = true := by simpa using List.dropWhile_eq_nil_iff.mp left
          have quote : isSpace '"' = false := by decide
          simp [blank, quote, enquoted?, cut]
      | cons x more =>
          have other : x ≠ '=' := by
            rintro rfl
            exact within ((List.dropWhile_suffix isSpace).subset (left ▸ List.mem_cons_self))
          have more : ¬ rest.all isSpace = true := by
            rw [List.all_eq_true, ← List.dropWhile_eq_nil_iff, left]
            simp
          simp [more, other]

/-! ## Values -/

theorem reference?_of_ne {x : Char} (other : x ≠ '#') (s : List Char) : reference? (x :: s) =
    match label? (x :: s) with
    | some (name, ';' :: rest) =>
      match builtinEntities.lookup name with
      | some c => some (.char c, rest)
      | none => some (.entity name, rest)
    | _ => none := by
  unfold reference?
  split
  case h_1 same => exact absurd (List.cons.inj same).1 other
  case h_2 same => exact absurd (List.cons.inj same).1 other
  all_goals rfl

theorem reference?_builtin {name : List Char} (known : (name, c) ∈ builtinEntities) (s : List Char) :
    reference? (name ++ ';' :: s) = some (.char c, s) := by
  have stop : ∀ x ∈ (';' :: s).head?, isNameChar x = false := by
    rintro x ⟨⟩
    decide
  have read : ∀ e ∈ builtinEntities, isLabel e.1 = true ∧ e.1.head? ≠ some '#' ∧
      builtinEntities.lookup e.1 = some e.2 := by decide
  obtain ⟨labelled, other, found⟩ := read _ known
  cases name with
  | nil => cases labelled
  | cons x name =>
      have first := label?_label labelled stop
      rw [List.cons_append] at first ⊢
      rw [reference?_of_ne (by simpa using other), first]
      simp only [found]

theorem reference?_decimal {x : Char} (other : x ≠ 'x') (s : List Char) :
    reference? ('#' :: x :: s) = (numberedReference? 10 (x :: s)).map fun (c, rest) => (.char c, rest) := by
  unfold reference?
  split
  case h_1 same => exact absurd (List.cons.inj (List.cons.inj same).2).1 other
  case h_2 same => rw [(List.cons.inj same).2]
  case h_3 _ hash => exact absurd rfl (hash _)

theorem valuePieces?_reference {p : Piece} (read : reference? s = some (p, rest)) :
    valuePieces? ('&' :: s) = (valuePieces? rest).map (p :: ·) := by
  rw [valuePieces?, if_pos rfl]
  split <;> simp_all

theorem valuePieces?_char (plain : c ≠ '&' ∧ c ≠ '<') (space : isSpace c = true → c = ' ') (s : List Char) :
    valuePieces? (c :: s) = if isMarkupChar c then (valuePieces? s).map (.char c :: ·) else none := by
  rw [valuePieces?, if_neg plain.1]
  cases good : isMarkupChar c with
  | false => simp
  | true =>
      have kept : (if isSpace c then ' ' else c) = c := by
        split
        case isTrue blank => exact (space blank).symm
        case isFalse => rfl
      simp [plain.2, kept]

theorem valuePieces?_escapeValueChar (c : Char) (s : List Char) : valuePieces? (escapeValueChar c ++ s) =
    if isMarkupChar c then (valuePieces? s).map (.char c :: ·) else none := by
  have named : ∀ e ∈ builtinEntities,
      valuePieces? ('&' :: (e.1 ++ ';' :: s)) = (valuePieces? s).map (.char e.2 :: ·) := fun e known =>
    valuePieces?_reference (reference?_builtin known s)
  have numbered : ∀ x y c : Char, x ≠ 'x' → numberedReference? 10 (x :: y :: ';' :: s) = some (c, s) →
      valuePieces? ('&' :: '#' :: x :: y :: ';' :: s) = (valuePieces? s).map (.char c :: ·) := by
    intro x y c other read
    exact valuePieces?_reference (by rw [reference?_decimal other, read]; rfl)
  unfold escapeValueChar
  split
  case h_1 => exact named ("quot".toList, '"') (by decide)
  case h_2 => exact numbered '1' '3' '\r' (by decide) rfl
  case h_3 => exact numbered '1' '0' '\n' (by decide) rfl
  case h_4 => exact numbered '0' '9' '\t' (by decide) rfl
  case h_5 quote return_ newline tab =>
    unfold escapeTextChar
    split
    case h_1 => exact named ("amp".toList, '&') (by decide)
    case h_2 => exact named ("lt".toList, '<') (by decide)
    case h_3 => exact named ("gt".toList, '>') (by decide)
    case h_4 amp lt gt =>
      refine valuePieces?_char ⟨amp, lt⟩ (fun blank => ?_) s
      simp only [isSpace, Bool.or_eq_true, decide_eq_true_eq] at blank
      tauto

theorem valuePieces?_escapeValue (v : String) : valuePieces? (escapeValue v) =
    if v.toList.all isMarkupChar then some (v.toList.map .char) else none := by
  rw [escapeValue]
  induction v.toList with
  | nil => simp [valuePieces?]
  | cons c s ih =>
      rw [List.flatMap_cons, valuePieces?_escapeValueChar, ih, List.all_cons]
      cases isMarkupChar c <;> cases s.all isMarkupChar <;> rfl

/-! ## Attributes of a tag -/

/-- What an attribute is read as. -/
def readAttribute? (a : List Char × String) : Option (QName × List Piece) :=
  (readName? a.1).bind fun q => if a.2.toList.all isMarkupChar then some (q, a.2.toList.map .char) else none

theorem of_readAttribute? {a : List Char × String} {read : QName × List Piece} (found : readAttribute? a = some read) :
    readName? a.1 = some read.1 ∧ a.2.toList.all isMarkupChar = true ∧ read.2 = a.2.toList.map .char := by
  obtain ⟨q, name, value⟩ := Option.bind_eq_some_iff.mp found
  split at value
  case isTrue good =>
    obtain rfl := Option.some.inj value
    exact ⟨name, good, rfl⟩
  case isFalse => cases value

theorem attributes?_step {t : List Char} (skip : s.dropWhile isSpace = t) (shorter : t.length < s.length)
    (more : ¬ ['>'] <+: t) (more' : ¬ ['/', '>'] <+: t) : attributes? s =
      (attribute? t).bind fun (a, rest) =>
        (attributes? rest).map fun ((as, closed), rest) => ((a :: as, closed), rest) := by
  rw [attributes?]
  split
  case h_1 rest ends => exact absurd (by simp [← skip, ends]) more
  case h_2 rest ends => exact absurd (by simp [← skip, ends]) more'
  case h_3 =>
    rw [dif_pos (skip ▸ shorter)]
    subst skip
    split <;> simp_all

theorem attributes?_writeAttribute (plain : '=' ∉ w ∧ '>' ∉ w) (v : String) (more : List Char) :
    attributes? (writeAttribute w v ++ more) = (readAttribute? (w, v)).bind fun a =>
      (attributes? more).map fun ((as, closed), rest) => ((a :: as, closed), rest) := by
  have equals : ∀ x ∈ ('=' :: '"' :: (escapeValue v ++ '"' :: more)).head?, isSpace x = false := by
    rintro x ⟨⟩
    decide
  have skip := dropWhile_append_stop (l := w) equals
  have within : w.dropWhile isSpace <:+ w := List.dropWhile_suffix isSpace
  have read := attribute?_append plain.1 v more
  have gap : isSpace ' ' = true := by decide
  rw [writeAttribute_append]
  generalize '"' :: (escapeValue v ++ '"' :: more) = value at *
  rw [attributes?_step (t := w.dropWhile isSpace ++ '=' :: value) (by rw [List.dropWhile_cons_of_pos gap, skip])]
  · rw [read, valuePieces?_escapeValue, readAttribute?]
    cases readName? w with
    | none => rfl
    | some q => cases v.toList.all isMarkupChar <;> rfl
  · have := within.length_le
    simp only [List.length_cons, List.length_append]
    omega
  · cases start : w.dropWhile isSpace with
    | nil => simp
    | cons x t =>
        have other : x ≠ '>' := by
          rintro rfl
          exact plain.2 (within.subset (start ▸ List.mem_cons_self))
        simpa using other.symm
  · cases start : w.dropWhile isSpace with
    | nil => simp
    | cons x t =>
        cases t with
        | nil => simp
        | cons y t =>
            have other : y ≠ '>' := by
              rintro rfl
              exact plain.2 (within.subset (start ▸ List.mem_cons_of_mem x List.mem_cons_self))
            simpa using fun _ => other.symm

theorem attributes?_append {l : List (List Char × String)} (plain : ∀ a ∈ l, '=' ∉ a.1 ∧ '>' ∉ a.1)
    {fin : List Char} {closed : Bool} (ends : attributes? fin = some (([], closed), r)) :
    attributes? (l.flatMap (fun a => writeAttribute a.1 a.2) ++ fin) =
      (l.mapM readAttribute?).map fun attributes => ((attributes, closed), r) := by
  induction l with
  | nil => simp [ends]
  | cons a l ih =>
      obtain ⟨here, later⟩ := List.forall_mem_cons.mp plain
      rw [List.flatMap_cons, List.append_assoc, attributes?_writeAttribute here, ih later, List.mapM_cons]
      cases readAttribute? a with
      | none => rfl
      | some first => cases l.mapM readAttribute? <;> rfl

end SvgForm.Xml
