import SvgForm.Proofs.Forest
import SvgForm.Proofs.Xml.Spelling
import SvgForm.Xml.Read
/-! # Written markup read back

A tree whose names are spelled out is written without failing. Reading its markup gives the tree back with its
names read and its line ends made newlines; it fails only where a name cannot be read or markup may not hold a
character.
-/

namespace SvgForm.Xml

/-- An element with its names as they are written. -/
structure Spelled where
  name : QName
  attributes : List (List Char × String)
  text : String
  tail : String

namespace Spelled

/-- The start of a tag, up to its end. -/
def opening (e : Spelled) : List Char :=
  '<' :: (e.name.spelling ++ e.attributes.flatMap fun a => writeAttribute a.1 a.2)

/-- An element around its content. -/
def around (e : Spelled) (content : List Char) : List Char :=
  e.opening ++ if content = [] then " />".toList
    else '>' :: (content ++ '<' :: '/' :: (e.name.spelling ++ ['>']))

theorem around_nil (e : Spelled) (r : List Char) : e.around [] ++ r = '<' :: (e.name.spelling ++
    (e.attributes.flatMap (fun a => writeAttribute a.1 a.2) ++ (" />".toList ++ r))) := by
  simp [around, opening]

theorem around_append (e : Spelled) {content : List Char} (some : content ≠ []) (r : List Char) :
    e.around content ++ r = '<' :: (e.name.spelling ++ (e.attributes.flatMap (fun a => writeAttribute a.1 a.2) ++
      '>' :: (content ++ '<' :: '/' :: (e.name.spelling ++ '>' :: r)))) := by
  simp [around, opening, some]

/-- The name is proper, and those of attributes do not hold what ends them. -/
structure Plain (e : Spelled) : Prop where
  name : e.name.IsProper
  attributes : ∀ a ∈ e.attributes, '=' ∉ a.1 ∧ '>' ∉ a.1

end Spelled

/-- The markup of trees, each with its tail. -/
def markup : Forest Spelled → List Char
  | .nil => []
  | .node e children siblings =>
    e.around (escapeText e.text ++ markup children) ++ (escapeText e.tail ++ markup siblings)

/-- What a text is read as. -/
def readText? (t : String) : Option (List Char) :=
  if t.toList.all isMarkupChar then some t.toList else none

/-- What an element is read as, its content and line ends apart. -/
def Spelled.draft? (e : Spelled) : Option Draft :=
  (e.attributes.mapM readAttribute?).bind fun attributes => (readText? e.text).bind fun text =>
    (readText? e.tail).map fun tail => ⟨e.name, attributes, text, tail⟩

/-- What trees are read as. -/
def drafts? : Forest Spelled → Option (Forest Draft)
  | .nil => some .nil
  | .node e children siblings =>
    e.draft?.bind fun d => (drafts? children).bind fun children => (drafts? siblings).map (.node d children ·)

/-- The tokens of an element around those of its content. -/
def Draft.around (d : Draft) (content : List Token) : List Token :=
  if content.isEmpty then [.start d.name d.attributes true]
  else .start d.name d.attributes false :: (content ++ [.stop d.name])

/-- The tokens by which trees are written. -/
def tokens : Forest Draft → List Token
  | .nil => []
  | .node d children siblings =>
    d.around (d.text.map .char ++ tokens children) ++ (d.tail.map .char ++ tokens siblings)

/-! ## Items -/

variable {c : Char} {s r rest : List Char} {q : QName} {e : Spelled} {f : Forest Spelled} {depth : Nat}

theorem isLabel_cons {label : List Char} (labelled : isLabel label = true) :
    ∃ c s, label = c :: s ∧ isNameStart c = true := by
  cases label with
  | nil => cases labelled
  | cons c s => exact ⟨c, s, rfl, (Bool.and_eq_true_iff.mp labelled).1⟩

theorem QName.IsProper.spelling_cons (proper : q.IsProper) : ∃ c s, q.spelling = c :: s ∧ isNameStart c = true := by
  obtain ⟨space, label⟩ := q
  cases space with
  | none => exact isLabel_cons proper.1
  | some space =>
      obtain ⟨c, s, rfl, start⟩ := isLabel_cons (proper.2 space rfl)
      exact ⟨c, s ++ ':' :: label, rfl, start⟩

theorem item?_start (start : isNameStart c = true) (s : List Char) :
    item? ('<' :: c :: s) = (startTag? (c :: s)).map fun (t, rest) => ([t], rest) := by
  have bang : c ≠ '!' := by
    rintro rfl
    exact absurd start (by decide)
  have ask : c ≠ '?' := by
    rintro rfl
    exact absurd start (by decide)
  have slash : c ≠ '/' := by
    rintro rfl
    exact absurd start (by decide)
  unfold item?
  split
  case h_9 other _ _ same => exact absurd (List.cons.inj same).1.symm other
  all_goals simp_all

theorem item?_stop (proper : q.IsProper) (r : List Char) :
    item? ('<' :: '/' :: (q.spelling ++ '>' :: r)) = some ([.stop q], r) := by
  have ends : ∀ x ∈ ('>' :: r).head?, isNameChar x = false ∧ x ≠ ':' := by
    rintro x ⟨⟩
    decide
  have angle : isSpace '>' = false := by decide
  have read : endTag? (q.spelling ++ '>' :: r) = some (.stop q, r) := by
    simp [endTag?, qname?_spelling proper ends, angle]
  simp [item?, read]

theorem item?_reference {p : Piece} (read : reference? s = some (p, rest)) :
    item? ('&' :: s) = some ([ofPiece p], rest) := by
  simp [item?, read]

/-- A character of text is read back by itself. -/
theorem item?_escapeTextChar (c : Char) (safe : ¬ [']', '>'] <+: s) : item? (escapeTextChar c ++ s) =
    if isMarkupChar c then some ([.char c], s) else none := by
  have named : ∀ e ∈ builtinEntities, item? ('&' :: (e.1 ++ ';' :: s)) = some ([.char e.2], s) := fun e known =>
    item?_reference (reference?_builtin known s)
  unfold escapeTextChar
  split
  case h_1 => exact named ("amp".toList, '&') (by decide)
  case h_2 => exact named ("lt".toList, '<') (by decide)
  case h_3 => exact named ("gt".toList, '>') (by decide)
  case h_4 amp lt gt =>
    rw [List.singleton_append]
    unfold item?
    split
    case h_8 same => exact absurd (by simp [(List.cons.inj same).2]) safe
    all_goals simp_all

/-- The attributes of a tag and its end, closed or not. -/
theorem item?_open (plain : e.Plain) {fin : List Char} {closed : Bool}
    (ends : attributes? fin = some (([], closed), r)) (stop : ∀ x ∈ fin.head?, isNameChar x = false ∧ x ≠ ':') :
    item? ('<' :: (e.name.spelling ++ (e.attributes.flatMap (fun a => writeAttribute a.1 a.2) ++ fin))) =
      (e.attributes.mapM readAttribute?).map fun attributes => ([.start e.name attributes closed], r) := by
  obtain ⟨c, s, spelled, start⟩ := plain.name.spelling_cons
  have stop' : ∀ x ∈ (e.attributes.flatMap (fun a => writeAttribute a.1 a.2) ++ fin).head?,
      isNameChar x = false ∧ x ≠ ':' := by
    cases e.attributes with
    | nil => exact stop
    | cons a l =>
        rw [List.flatMap_cons, List.append_assoc, writeAttribute_append]
        rintro x ⟨⟩
        decide
  have tag := qname?_spelling plain.name stop'
  have read : startTag? (e.name.spelling ++ (e.attributes.flatMap (fun a => writeAttribute a.1 a.2) ++ fin)) =
      (e.attributes.mapM readAttribute?).map fun attributes => (.start e.name attributes closed, r) := by
    rw [startTag?, tag]
    simp only [attributes?_append plain.attributes ends, Option.map_map, Function.comp_def]
  rw [spelled, List.cons_append] at read ⊢
  rw [item?_start start, read, Option.map_map]
  rfl

/-! ## Tokens -/

/-- The tokens that come after some of an element, where so many elements are open. -/
def moreTokens? (depth : Nat) (s : List Char) : Option (List Token × List Char) :=
  if depth = 0 then some ([], s) else elementTokens? depth s

theorem moreTokens?_succ (depth : Nat) (s : List Char) : moreTokens? (depth + 1) s = elementTokens? (depth + 1) s :=
  if_neg (Nat.succ_ne_zero depth)

theorem elementTokens?_of_item? {ts : List Token} (read : item? s = some (ts, rest)) : elementTokens? depth s =
    (moreTokens? (ts.foldl depthAfter depth) rest).map fun (more, rest) => (ts ++ more, rest) := by
  rw [elementTokens?, moreTokens?]
  split
  case h_1 ts' rest' found =>
    obtain ⟨rfl, rfl⟩ := Prod.mk.inj (Option.some.inj (read.symm.trans found))
    split <;> simp
  case h_2 found => simp [read] at found

theorem elementTokens?_eq_none (failed : item? s = none) : elementTokens? depth s = none := by
  rw [elementTokens?]
  split
  case h_1 found => simp [failed] at found
  case h_2 => rfl

/-- Escaped text holds no angle bracket, so the end of literal text does not come up in it. -/
theorem safe_escapeText (t : List Char) (r : List Char) :
    ¬ ['>'] <+: t.flatMap escapeTextChar ++ '<' :: r ∧ ¬ [']', '>'] <+: t.flatMap escapeTextChar ++ '<' :: r := by
  have first : ∀ t : List Char, ¬ ['>'] <+: t.flatMap escapeTextChar ++ '<' :: r := by
    intro t
    cases t with
    | nil => simp
    | cons c t =>
        rw [List.flatMap_cons]
        unfold escapeTextChar
        split <;> simp_all [eq_comm]
  refine ⟨first t, ?_⟩
  cases t with
  | nil => simp
  | cons c t =>
      rw [List.flatMap_cons, List.append_assoc]
      intro marked
      cases escaped : escapeTextChar c with
      | nil =>
          unfold escapeTextChar at escaped
          split at escaped <;> cases escaped
      | cons x s =>
          rw [escaped, List.cons_append, List.cons_prefix_cons] at marked
          obtain ⟨rfl, marked⟩ := marked
          have alone : s = [] := by
            unfold escapeTextChar at escaped
            split at escaped <;> simp_all
          rw [alone] at marked
          exact first t marked

theorem elementTokens?_escapeText (t : String) (r : List Char) (depth : Nat) :
    elementTokens? (depth + 1) (escapeText t ++ '<' :: r) = (readText? t).bind fun text =>
      (elementTokens? (depth + 1) ('<' :: r)).map fun (ts, rest) => (text.map .char ++ ts, rest) := by
  rw [escapeText, readText?]
  induction t.toList with
  | nil => simp
  | cons c t ih =>
      have item := item?_escapeTextChar c (safe_escapeText t r).2
      rw [List.flatMap_cons, List.append_assoc]
      cases good : isMarkupChar c with
      | false =>
          rw [good] at item
          rw [elementTokens?_eq_none item]
          simp [good]
      | true =>
          rw [good] at item
          have open_ : [Token.char c].foldl depthAfter (depth + 1) = depth + 1 := rfl
          rw [elementTokens?_of_item? item, open_, moreTokens?_succ, ih]
          cases all : t.all isMarkupChar with
          | false => simp [good, all]
          | true => simp [good, all, Function.comp_def]

theorem attributes?_angle (r : List Char) : attributes? ('>' :: r) = some (([], false), r) := by
  have angle : isSpace '>' = false := by decide
  rw [attributes?]
  simp [angle]

theorem attributes?_slash (r : List Char) : attributes? (" />".toList ++ r) = some (([], true), r) := by
  have gap : isSpace ' ' = true := by decide
  have slash : isSpace '/' = false := by decide
  rw [attributes?]
  simp [gap, slash]

/-- An element is read with its content, and then what comes after it. -/
theorem elementTokens?_around (plain : e.Plain) {content : List Char} {inner : Option (List Token)}
    (within : ∀ r, elementTokens? (depth + 1) (content ++ '<' :: r) = inner.bind fun ts =>
      (elementTokens? (depth + 1) ('<' :: r)).map fun (more, rest) => (ts ++ more, rest))
    (filled : ∀ ts ∈ inner, ts = [] ↔ content = []) (none : content = [] → inner = some []) (r : List Char) :
    elementTokens? depth (e.around content ++ r) =
      (e.attributes.mapM readAttribute?).bind fun attributes => inner.bind fun ts =>
        (moreTokens? depth r).map fun (more, rest) =>
          (Draft.around ⟨e.name, attributes, [], []⟩ ts ++ more, rest) := by
  by_cases empty : content = []
  · subst empty
    have stop : ∀ x ∈ (" />".toList ++ r).head?, isNameChar x = false ∧ x ≠ ':' := by
      rintro x ⟨⟩
      decide
    have item := item?_open plain (attributes?_slash r) stop
    rw [e.around_nil, none rfl]
    cases read : e.attributes.mapM readAttribute? with
    | none =>
        rw [read] at item
        exact elementTokens?_eq_none item
    | some attributes =>
        rw [read] at item
        rw [elementTokens?_of_item? item]
        rfl
  · have stop : ∀ x ∈ ('>' :: (content ++ '<' :: '/' :: (e.name.spelling ++ '>' :: r))).head?,
        isNameChar x = false ∧ x ≠ ':' := by
      rintro x ⟨⟩
      decide
    have item := item?_open plain (attributes?_angle (content ++ '<' :: '/' :: (e.name.spelling ++ '>' :: r))) stop
    rw [e.around_append empty]
    cases read : e.attributes.mapM readAttribute? with
    | none =>
        rw [read] at item
        exact elementTokens?_eq_none item
    | some attributes =>
        rw [read] at item
        have opened : [Token.start e.name attributes false].foldl depthAfter depth = depth + 1 := rfl
        have closed : [Token.stop e.name].foldl depthAfter (depth + 1) = depth := rfl
        rw [elementTokens?_of_item? item, opened, moreTokens?_succ, within,
          elementTokens?_of_item? (item?_stop plain.name r), closed]
        cases inner with
        | none => rfl
        | some ts =>
            have some : ts ≠ [] := (filled ts rfl).not.mpr empty
            simp [Draft.around, some, Function.comp_def]

theorem tokens_eq_nil_iff {g : Forest Draft} : tokens g = [] ↔ g = .nil := by
  cases g with
  | nil => simp [tokens]
  | node d children siblings =>
      rw [tokens, Draft.around]
      split <;> simp

theorem markup_eq_nil_iff : markup f = [] ↔ f = .nil := by
  cases f <;> simp [markup, Spelled.around, Spelled.opening]

theorem escapeText_eq_nil_iff {t : String} : escapeText t = [] ↔ t.toList = [] := by
  rw [escapeText]
  cases t.toList with
  | nil => simp
  | cons c s =>
      simp only [List.flatMap_cons, List.append_eq_nil_iff, reduceCtorEq, iff_false, not_and]
      intro none
      unfold escapeTextChar at none
      split at none <;> cases none

/-- Text is read with the trees after it, up to the next tag. -/
theorem elementTokens?_content (t : String) {g : Option (Forest Draft)} {r : List Char}
    (trees : elementTokens? (depth + 1) (markup f ++ '<' :: r) = g.bind fun g =>
      (elementTokens? (depth + 1) ('<' :: r)).map fun (ts, rest) => (tokens g ++ ts, rest)) :
    elementTokens? (depth + 1) (escapeText t ++ markup f ++ '<' :: r) = (readText? t).bind fun text => g.bind fun g =>
      (elementTokens? (depth + 1) ('<' :: r)).map fun (ts, rest) => (text.map .char ++ tokens g ++ ts, rest) := by
  have opening : ∃ r', markup f ++ '<' :: r = '<' :: r' := by
    cases f with
    | nil => exact ⟨r, rfl⟩
    | node e children siblings => exact ⟨_, rfl⟩
  obtain ⟨r', opening⟩ := opening
  rw [List.append_assoc, opening, elementTokens?_escapeText, ← opening, trees]
  cases readText? t with
  | none => rfl
  | some text => cases g <;> simp [Function.comp_def]

theorem eq_of_readText? {t : String} {text : List Char} (read : readText? t = some text) : text = t.toList := by
  rw [readText?] at read
  split at read
  case isTrue => exact (Option.some.inj read).symm
  case isFalse => cases read

theorem drafts?_eq_nil_iff {g : Forest Draft} (read : drafts? f = some g) : g = .nil ↔ f = .nil := by
  cases f with
  | nil =>
      obtain rfl := Option.some.inj read
      simp
  | node e children siblings =>
      simp only [drafts?, Option.bind_eq_some_iff, Option.map_eq_some_iff] at read
      obtain ⟨_, -, _, -, _, -, rfl⟩ := read
      simp

/-- What the content of an element is read as. -/
def contentTokens? (e : Spelled) (children : Forest Spelled) : Option (List Char × Forest Draft) :=
  (readText? e.text).bind fun text => (drafts? children).map (text, ·)

theorem elementTokens?_node {children : Forest Spelled} (plain : e.Plain) (depth : Nat)
    (inner : ∀ r, elementTokens? (depth + 1) (markup children ++ '<' :: r) = (drafts? children).bind fun g =>
      (elementTokens? (depth + 1) ('<' :: r)).map fun (ts, rest) => (tokens g ++ ts, rest)) (r : List Char) :
    elementTokens? depth (e.around (escapeText e.text ++ markup children) ++ r) =
      (e.attributes.mapM readAttribute?).bind fun attributes => (contentTokens? e children).bind fun (text, g) =>
        (moreTokens? depth r).map fun (more, rest) =>
          (Draft.around ⟨e.name, attributes, text, []⟩ (text.map .char ++ tokens g) ++ more, rest) := by
  have within : ∀ r, elementTokens? (depth + 1) (escapeText e.text ++ markup children ++ '<' :: r) =
      ((contentTokens? e children).map fun (text, g) => text.map .char ++ tokens g).bind fun ts =>
        (elementTokens? (depth + 1) ('<' :: r)).map fun (more, rest) => (ts ++ more, rest) := by
    intro r
    rw [elementTokens?_content e.text (inner r), contentTokens?]
    cases readText? e.text with
    | none => rfl
    | some text => cases drafts? children <;> rfl
  rw [elementTokens?_around plain within]
  · cases e.attributes.mapM readAttribute? with
    | none => rfl
    | some attributes => cases contentTokens? e children <;> rfl
  · intro ts mem
    obtain ⟨⟨text, g⟩, content, rfl⟩ := Option.map_eq_some_iff.mp mem
    obtain ⟨text', read, trees⟩ := Option.bind_eq_some_iff.mp content
    obtain ⟨g', drafts, same⟩ := Option.map_eq_some_iff.mp trees
    obtain ⟨rfl, rfl⟩ := Prod.mk.inj same
    rw [List.append_eq_nil_iff, List.append_eq_nil_iff, List.map_eq_nil_iff, tokens_eq_nil_iff, markup_eq_nil_iff,
      escapeText_eq_nil_iff, drafts?_eq_nil_iff drafts, eq_of_readText? read]
  · intro empty
    rw [List.append_eq_nil_iff, escapeText_eq_nil_iff, markup_eq_nil_iff] at empty
    obtain ⟨blank, rfl⟩ := empty
    simp [contentTokens?, readText?, blank, drafts?, tokens]

theorem elementTokens?_markup (plain : ∀ e ∈ f.toList, e.Plain) (depth : Nat) (r : List Char) :
    elementTokens? (depth + 1) (markup f ++ '<' :: r) = (drafts? f).bind fun g =>
      (elementTokens? (depth + 1) ('<' :: r)).map fun (ts, rest) => (tokens g ++ ts, rest) := by
  induction f generalizing depth r with
  | nil => simp [markup, drafts?, tokens]
  | node e children siblings ihc ihs =>
      obtain ⟨own, inside⟩ := List.forall_mem_cons.mp plain
      have ihc := ihc fun x hx => inside x (List.mem_append_left _ hx)
      have ihs := ihs fun x hx => inside x (List.mem_append_right _ hx)
      have tree := elementTokens?_node own (depth + 1) (fun r => ihc (depth + 1) r)
        (escapeText e.tail ++ markup siblings ++ '<' :: r)
      rw [markup, List.append_assoc, tree, moreTokens?_succ, elementTokens?_content e.tail (ihs depth r), drafts?,
        Spelled.draft?, contentTokens?]
      cases e.attributes.mapM readAttribute? with
      | none => rfl
      | some attributes =>
          cases readText? e.text with
          | none => rfl
          | some text =>
              cases readText? e.tail with
              | none => cases drafts? children <;> rfl
              | some tail =>
                  cases drafts? children with
                  | none => rfl
                  | some g =>
                      cases drafts? siblings with
                      | none => rfl
                      | some g' => simp [tokens, Draft.around, Function.comp_def]

theorem elementTokens?_root {children : Forest Spelled} (plain : ∀ x ∈ (Forest.node e children .nil).toList, x.Plain)
    (last : e.tail = "") : elementTokens? 0 (markup (.node e children .nil)) =
      (drafts? (.node e children .nil)).map fun g => (tokens g, []) := by
  obtain ⟨own, inside⟩ := List.forall_mem_cons.mp plain
  have tree := elementTokens?_node own 0
    (elementTokens?_markup (fun x hx => inside x (List.mem_append_left _ hx)) 0) []
  have done : moreTokens? 0 [] = some ([], []) := rfl
  rw [done] at tree
  have none : escapeText "" ++ markup .nil = [] := rfl
  rw [markup, last, none, tree, contentTokens?]
  simp only [drafts?, Spelled.draft?, last]
  cases e.attributes.mapM readAttribute? with
  | none => rfl
  | some attributes =>
      cases readText? e.text with
      | none => rfl
      | some text =>
          cases drafts? children with
          | none => rfl
          | some g => simp [tokens, Draft.around, readText?]

/-! ## Trees from tokens -/

theorem read_chars (text : List Char) (ts : List Token) : Content.read (text.map .char ++ ts) =
    (Content.read ts).map fun (here, stopped) => ({ here with text := text ++ here.text }, stopped) := by
  induction text with
  | nil =>
      rw [List.map_nil, List.nil_append]
      cases Content.read ts <;> rfl
  | cons c text ih =>
      rw [List.map_cons, List.cons_append, Content.read, ih]
      cases Content.read ts <;> rfl

/-- The tokens of trees make up these trees again. -/
theorem read_tokens {g : Forest Draft} {ts : List Token} {stopped : List (QName × Content)}
    (after : Content.read ts = some ({}, stopped)) :
    Content.read (tokens g ++ ts) = some ({ elements := g }, stopped) := by
  induction g generalizing ts stopped with
  | nil => exact after
  | node d children siblings ihc ihs =>
      have later : Content.read (d.tail.map .char ++ (tokens siblings ++ ts)) =
          some ({ text := d.tail, elements := siblings }, stopped) := by
        simp [read_chars, ihs after]
      rw [tokens, List.append_assoc, List.append_assoc, Draft.around]
      split
      case isTrue empty =>
        rw [List.isEmpty_iff, List.append_eq_nil_iff, List.map_eq_nil_iff, tokens_eq_nil_iff] at empty
        obtain ⟨blank, rfl⟩ := empty
        rw [List.singleton_append, Content.read, later]
        obtain ⟨name, attributes, text, tail⟩ := d
        obtain rfl : text = [] := blank
        rfl
      case isFalse =>
        have stop : Content.read (.stop d.name :: (d.tail.map .char ++ (tokens siblings ++ ts))) =
            some ({}, (d.name, { text := d.tail, elements := siblings }) :: stopped) := by
          rw [Content.read, later]
          rfl
        simp only [List.cons_append, List.append_assoc, List.nil_append, Content.read]
        rw [read_chars, ihc stop]
        simp [Content.push]

theorem ofTokens?_tokens (g : Forest Draft) : Content.ofTokens? (tokens g) = some { elements := g } := by
  have read : Content.read (tokens g ++ []) = some ({ elements := g }, []) := read_tokens rfl
  rw [List.append_nil] at read
  rw [Content.ofTokens?, read]

/-! ## No references -/

theorem entities_of_drafts? {g : Forest Draft} (read : drafts? f = some g) :
    ∀ t ∈ tokens g, t.entities = [] := by
  induction f generalizing g with
  | nil =>
      obtain rfl := Option.some.inj read
      simp [tokens]
  | node e children siblings ihc ihs =>
      simp only [drafts?, Spelled.draft?, Option.bind_eq_some_iff, Option.map_eq_some_iff] at read
      obtain ⟨_, ⟨attributes, named, text, -, tail, -, rfl⟩, c, inner, s, later, rfl⟩ := read
      have chars : ∀ text : List Char, ∀ t ∈ text.map Token.char, t.entities = [] := by
        intro text t mem
        obtain ⟨c, -, rfl⟩ := List.mem_map.mp mem
        rfl
      have start : ∀ closed, (Token.start e.name attributes closed).entities = [] := by
        intro closed
        refine List.flatMap_eq_nil_iff.mpr fun a mem => ?_
        obtain ⟨b, -, made⟩ := exists_of_mem_mapM named mem
        rw [(of_readAttribute? made).2.2, List.filterMap_map]
        exact List.filterMap_eq_nil_iff.mpr fun c _ => rfl
      intro t mem
      simp only [tokens, Draft.around, List.mem_append] at mem
      rcases mem with own | mem | mem
      · split at own
        case isTrue => exact List.mem_singleton.mp own ▸ start true
        case isFalse =>
          simp only [List.mem_cons, List.mem_append, List.not_mem_nil, or_false] at own
          rcases own with rfl | (mem | mem) | rfl
          · exact start false
          · exact chars text t mem
          · exact ihc inner t mem
          · rfl
      · exact chars tail t mem
      · exact ihs later t mem

theorem content?_of_entities {d : Declarations} (none : d.entities = []) {ts : List Token}
    (plain : ∀ t ∈ ts, t.entities = []) : d.content? ts = some ts := by
  rw [Declarations.content?, none, List.length_nil, expandContent, mapM_eq_some_iff, List.forall₂_same]
  intro t mem
  have := plain t mem
  cases t <;> simp_all [Token.entities]

/-! ## Line ends -/

theorem normalizeNewlines_cons (other : c ≠ '\r') (s : List Char) :
    normalizeNewlines (c :: s) = c :: normalizeNewlines s := by
  rw [normalizeNewlines]
  · simp [other]
  · simp [other]

theorem normalizeNewlines_append (seam : r.head? ≠ some '\n') :
    normalizeNewlines (s ++ r) = normalizeNewlines s ++ normalizeNewlines r := by
  fun_induction normalizeNewlines s with
  | case1 => rfl
  | case2 s ih => simp [normalizeNewlines, ih]
  | case3 s other ih =>
      rw [List.cons_append, normalizeNewlines, ih, List.cons_append]
      intro t start
      cases s with
      | nil =>
          obtain rfl : r = '\n' :: t := start
          exact seam rfl
      | cons x s => exact other s (by simp_all)
  | case4 c s _ other ih =>
      rw [List.cons_append, normalizeNewlines_cons (by simpa using other), ih, List.cons_append]

theorem normalizeNewlines_seam (other : c ≠ '\r' ∧ c ≠ '\n') (s r : List Char) :
    normalizeNewlines (s ++ c :: r) = normalizeNewlines s ++ c :: normalizeNewlines r := by
  rw [normalizeNewlines_append (by simpa using other.2), normalizeNewlines_cons other.1]

theorem normalizeNewlines_of_not_mem (absent : '\r' ∉ s) (r : List Char) :
    normalizeNewlines (s ++ r) = s ++ normalizeNewlines r := by
  induction s with
  | nil => rfl
  | cons c s ih =>
      simp only [List.mem_cons, not_or] at absent
      rw [List.cons_append, normalizeNewlines_cons (Ne.symm absent.1), ih absent.2, List.cons_append]

/-- A text as it is once its markup was read. -/
def normalText (t : String) : String :=
  Text.onChars normalizeNewlines t

theorem not_mem_escapeTextChar {x : Char} (other : x ≠ c) (mark : x = '\r' ∨ x = '\n') : x ∉ escapeTextChar c := by
  intro mem
  unfold escapeTextChar at mem
  split at mem
  case h_4 => exact other (List.mem_singleton.mp mem)
  all_goals rcases mark with rfl | rfl <;> revert mem <;> decide

theorem normalizeNewlines_escapeText (t : String) :
    normalizeNewlines (escapeText t) = escapeText (normalText t) := by
  rw [escapeText, escapeText, normalText, Text.onChars, String.toList_ofList]
  fun_induction normalizeNewlines t.toList with
  | case1 => rfl
  | case2 s ih => simp [normalizeNewlines, escapeTextChar, ih]
  | case3 s other ih =>
      have return_ : escapeTextChar '\r' = ['\r'] := rfl
      have newline : escapeTextChar '\n' = ['\n'] := rfl
      rw [List.flatMap_cons, List.flatMap_cons, return_, newline, List.singleton_append, normalizeNewlines, ih,
        List.singleton_append]
      intro rest start
      cases s with
      | nil => cases start
      | cons x s =>
          have absent : '\n' ∉ escapeTextChar x := not_mem_escapeTextChar (fun same => other s (by rw [← same])) (.inr rfl)
          cases escaped : escapeTextChar x with
          | nil =>
            unfold escapeTextChar at escaped
            split at escaped <;> cases escaped
          | cons y more =>
              rw [List.flatMap_cons, escaped, List.cons_append] at start
              rw [escaped, (List.cons.inj start).1] at absent
              exact absent List.mem_cons_self
  | case4 c s _ other ih =>
      rw [List.flatMap_cons, List.flatMap_cons,
        normalizeNewlines_of_not_mem (not_mem_escapeTextChar (Ne.symm (by simpa using other)) (.inl rfl)), ih]

/-- A spelled element as it is once its markup was read. -/
def Spelled.normal (e : Spelled) : Spelled where
  name := e.name
  attributes := e.attributes.map fun a => (normalizeNewlines a.1, a.2)
  text := normalText e.text
  tail := normalText e.tail

theorem normalizeNewlines_attributes (l : List (List Char × String)) (r : List Char) :
    normalizeNewlines (l.flatMap (fun a => writeAttribute a.1 a.2) ++ r) =
      (l.map fun a => (normalizeNewlines a.1, a.2)).flatMap (fun a => writeAttribute a.1 a.2) ++
        normalizeNewlines r := by
  induction l with
  | nil => rfl
  | cons a l ih =>
      have value : '\r' ∉ escapeValue a.2 := by
        intro mem
        obtain ⟨c, -, here⟩ := List.mem_flatMap.mp mem
        unfold escapeValueChar at here
        split at here
        case h_5 other _ _ => exact not_mem_escapeTextChar (Ne.symm other) (.inl rfl) here
        all_goals revert here; decide
      rw [List.flatMap_cons, List.append_assoc, writeAttribute_append, normalizeNewlines_cons (by decide),
        normalizeNewlines_seam (by decide), normalizeNewlines_cons (by decide), normalizeNewlines_of_not_mem value,
        normalizeNewlines_cons (by decide), ih, List.map_cons, List.flatMap_cons, List.append_assoc,
        writeAttribute_append]

theorem normalizeNewlines_name (proper : q.IsProper) (r : List Char) :
    normalizeNewlines (q.spelling ++ r) = q.spelling ++ normalizeNewlines r :=
  normalizeNewlines_of_not_mem (fun mem => absurd (proper.readable.mem_spelling mem) (by decide)) r

theorem normalizeNewlines_content (t : String) (f : Forest Spelled) :
    normalizeNewlines (escapeText t ++ markup f) = escapeText (normalText t) ++ normalizeNewlines (markup f) := by
  have seam : (markup f).head? ≠ some '\n' := by
    cases f with
    | nil => simp [markup]
    | node e children siblings => simp [markup, Spelled.around, Spelled.opening]
  rw [normalizeNewlines_append seam, normalizeNewlines_escapeText]

theorem normalizeNewlines_eq_nil_iff : normalizeNewlines s = [] ↔ s = [] := by
  fun_cases normalizeNewlines s <;> simp

theorem normalizeNewlines_around (proper : e.name.IsProper) (content r : List Char) :
    normalizeNewlines (e.around content ++ r) = e.normal.around (normalizeNewlines content) ++ normalizeNewlines r := by
  have name := normalizeNewlines_name proper
  by_cases empty : content = []
  · subst empty
    have slash : '\r' ∉ " />".toList := by decide
    rw [normalizeNewlines, Spelled.around_nil, Spelled.around_nil, normalizeNewlines_cons (by decide), name,
      normalizeNewlines_attributes, normalizeNewlines_of_not_mem slash]
    rfl
  · rw [Spelled.around_append e empty, Spelled.around_append _ (normalizeNewlines_eq_nil_iff.not.mpr empty),
      normalizeNewlines_cons (by decide), name, normalizeNewlines_attributes, normalizeNewlines_cons (by decide),
      normalizeNewlines_seam (by decide), normalizeNewlines_cons (by decide), name, normalizeNewlines_cons (by decide)]
    rfl

/-- Normalizing the markup of trees normalizes their texts and the names of their attributes. -/
theorem normalizeNewlines_markup (proper : ∀ e ∈ f.toList, e.name.IsProper) :
    normalizeNewlines (markup f) = markup (f.map Spelled.normal) := by
  induction f with
  | nil => rfl
  | node e children siblings ihc ihs =>
      obtain ⟨own, inside⟩ := List.forall_mem_cons.mp proper
      have ihc := ihc fun x hx => inside x (List.mem_append_left _ hx)
      have ihs := ihs fun x hx => inside x (List.mem_append_right _ hx)
      rw [markup, normalizeNewlines_around own, normalizeNewlines_content, normalizeNewlines_content, ihc, ihs]
      rfl

theorem mem_of_mem_normalizeNewlines (mem : c ∈ normalizeNewlines s) : c ∈ s ∨ c = '\n' := by
  fun_induction normalizeNewlines s with
  | case1 => exact .inl mem
  | case2 s ih | case3 s _ ih =>
      rcases List.mem_cons.mp mem with newline | later
      · exact .inr newline
      · exact (ih later).imp_left fun there => by simp [there]
  | case4 c s _ _ ih =>
      rcases List.mem_cons.mp mem with rfl | later
      · exact .inl List.mem_cons_self
      · exact (ih later).imp_left (List.mem_cons_of_mem c)

theorem Spelled.Plain.normal (plain : e.Plain) : e.normal.Plain where
  name := plain.name
  attributes := by
    intro a mem
    obtain ⟨a, there, rfl⟩ := List.mem_map.mp mem
    obtain ⟨equals, angle⟩ := plain.attributes a there
    exact ⟨fun mem => (mem_of_mem_normalizeNewlines mem).elim equals (by decide),
      fun mem => (mem_of_mem_normalizeNewlines mem).elim angle (by decide)⟩

/-! ## Documents -/

/-- Nothing stands before a start tag at the start of a document. -/
theorem prolog?_of_start (start : isNameStart c = true) (s : List Char) :
    prolog? ('<' :: c :: s) = some ({ room := roomFor (byteCount ('<' :: c :: s)) }, '<' :: c :: s) ∧
      skipMisc? ('<' :: c :: s) = some ('<' :: c :: s) ∧
      ∀ d, doctype? d ('<' :: c :: s) = some (d, '<' :: c :: s) := by
  have bang : c ≠ '!' := by
    rintro rfl
    exact absurd start (by decide)
  have ask : c ≠ '?' := by
    rintro rfl
    exact absurd start (by decide)
  have version : Text.after? "<?xml".toList ('<' :: c :: s) = none := by simp [Text.after?, Ne.symm ask]
  have type : Text.after? "<!DOCTYPE".toList ('<' :: c :: s) = none := by simp [Text.after?, Ne.symm bang]
  refine ⟨by rw [prolog?, version], ?_, fun d => by rw [doctype?, type]⟩
  have space : isSpace '<' = false := by decide
  rw [skipMisc?]
  · simp [space]
  · simp [bang]
  · simp [ask]

theorem take?_nil (d : Declarations) : d.take? [] = some d := by
  simp [Declarations.take?, Weights.total]

/-- Reading the markup of a tree: nothing but names and characters can fail it, and then namespaces. -/
theorem root?_markup {children : Forest Spelled} (plain : ∀ x ∈ (Forest.node e children .nil).toList, x.Plain)
    (last : e.tail = "") : ∃ d : Declarations, d.entities = [] ∧ d.attributes = [] ∧
      root? (markup (.node e children .nil)) =
        (drafts? ((Forest.node e children .nil).map Spelled.normal)).bind (resolveAll? d .initial) := by
  have proper : ∀ x ∈ (Forest.node e children .nil).toList, x.name.IsProper := fun x hx => (plain x hx).name
  have plain' : ∀ x ∈ ((Forest.node e children .nil).map Spelled.normal).toList, x.Plain := by
    rw [Forest.toList_map]
    intro x hx
    obtain ⟨y, hy, rfl⟩ := List.mem_map.mp hx
    exact (plain y hy).normal
  obtain ⟨c, s, name, start⟩ := (proper e List.mem_cons_self).spelling_cons
  have mark : dropByteOrderMark (markup (.node e children .nil)) = markup (.node e children .nil) := rfl
  have shape : ∃ s, markup ((Forest.node e children .nil).map Spelled.normal) = '<' :: c :: s := by
    simp [markup, Spelled.around, Spelled.opening, Forest.map, Spelled.normal, name]
  have last' : e.normal.tail = "" := by
    rw [Spelled.normal, last]
    rfl
  have tokens_eq := elementTokens?_root plain' last'
  obtain ⟨s, shape⟩ := shape
  obtain ⟨prolog, misc, doctype⟩ := prolog?_of_start start s
  refine ⟨{ room := roomFor (byteCount ('<' :: c :: s)) }, rfl, rfl, ?_⟩
  rw [root?, mark, normalizeNewlines_markup proper, shape, prolog]
  simp only [Option.bind_eq_bind, Option.bind_some, misc, doctype]
  rw [← shape, rootTokens?, Forest.map, Forest.map, tokens_eq]
  cases read : drafts? (.node e.normal (children.map Spelled.normal) .nil) with
  | none => rfl
  | some g =>
      have plain := entities_of_drafts? read
      have none : (tokens g).flatMap (·.entities) = [] := List.flatMap_eq_nil_iff.mpr plain
      have first : ∃ d c, g = .node d c .nil := by
        simp only [drafts?, Option.bind_eq_some_iff, Option.map_eq_some_iff, Option.some.injEq] at read
        obtain ⟨d, -, c, -, _, rfl, rfl⟩ := read
        exact ⟨d, c, rfl⟩
      obtain ⟨d, c, rfl⟩ := first
      have start : (tokens (.node d c .nil)).head?.any Token.isStart = true := by
        rw [tokens, Draft.around]
        split <;> rfl
      simp only [Option.map_some, Option.filter_some, start, if_true, Option.bind_some, none, take?_nil, skipMisc?,
        ne_eq, not_true_eq_false, if_false]
      rw [content?_of_entities (by rfl) plain, Option.bind_some, ofTokens?_tokens]
      rfl

end SvgForm.Xml
