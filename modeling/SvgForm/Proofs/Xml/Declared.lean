import SvgForm.Proofs.Xml.Tokens
import SvgForm.Xml.Read
/-! # What documents declare

A document type declares attributes that elements have by default. Their values are clean, and their names are made
of characters of names, although a label behind a short form may start with any of these.
-/

namespace SvgForm.Xml

open Reader

/-! ## What readers return -/

/-- Whatever the reader returns has the property. -/
def Reader.Gives {α : Type} (m : Reader α) (P : α → Prop) : Prop :=
  ∀ s a rest, m s = some (a, rest) → P a

namespace Reader

variable {α β σ : Type} {P : α → Prop} {Q : β → Prop}

theorem gives_pure {a : α} (holds : P a) : (pure a : Reader α).Gives P := by
  rintro s _ _ ⟨⟩
  exact holds

theorem Gives.bind {m : Reader α} {f : α → Reader β} (first : m.Gives P) (later : ∀ a, P a → (f a).Gives Q) :
    (m >>= f).Gives Q := by
  intro s b rest read
  obtain ⟨⟨a, s'⟩, here, after⟩ := Option.bind_eq_some_iff.mp read
  exact later a (first s a s' here) s' b rest after

/-- What is read first does not matter to what is returned. -/
theorem gives_bind {m : Reader α} {f : α → Reader β} (later : ∀ a, (f a).Gives Q) : (m >>= f).Gives Q := by
  have first : m.Gives fun _ => True := fun _ _ _ _ => trivial
  exact first.bind fun a _ => later a

theorem gives_skip {skips : Prop} [Decidable skips] {m : Reader Unit} {f : Unit → Reader β}
    (later : ∀ u, (f u).Gives Q) : Reader.Gives (if skips then m >>= f else f ()) Q := by
  split
  case isTrue => exact gives_bind later
  case isFalse => exact later ()

theorem gives_lift {o : Option α} (holds : ∀ a ∈ o, P a) : (liftM o : Reader α).Gives P := by
  intro s a rest read
  cases o with
  | none => cases read
  | some a' =>
      obtain ⟨rfl, -⟩ := Prod.mk.inj (Option.some.inj read)
      exact holds _ rfl

theorem gives_failure : (failure : Reader α).Gives P := by
  rintro s _ _ ⟨⟩

/-- What every item keeps, all of them keep. -/
theorem gives_untilDone {P : σ → Prop} {item : σ → Reader (σ × Bool)}
    (step : ∀ state, P state → (item state).Gives fun r => P r.1) {state : σ} (start : P state) :
    (untilDone item state).Gives P := by
  have go (fuel : Nat) : ∀ state, P state → (untilDone.go item fuel state).Gives P := by
    induction fuel with
    | zero => exact fun _ _ => gives_failure
    | succ fuel ih =>
        intro state holds
        refine (step state holds).bind ?_
        rintro ⟨next, done⟩ kept
        cases done with
        | true => exact gives_pure kept
        | false => exact ih next kept
  exact gives_bind fun s => go s.length state start

end Reader

/-! ## Declared attributes -/

structure AttributeDecl.Clean (a : AttributeDecl) : Prop where
  name : a.name.IsReadable
  value : ∀ v ∈ a.value, Xml.Clean v

def Declarations.Clean (d : Declarations) : Prop :=
  ∀ a ∈ d.attributes, a.Clean

variable {d : Declarations}

theorem gives_label : label.Gives fun l => isLabel l = true :=
  fun _ _ _ read => (of_label? read).1

theorem gives_declaredName : declaredName.Gives QName.IsReadable := by
  refine gives_label.bind fun first labelled => gives_bind fun colon => ?_
  cases colon with
  | true =>
      have second : Reader.Gives (fun s => some (s.takeWhile isNameChar, s.dropWhile isNameChar))
          fun l => ∀ c ∈ l, isNameChar c = true := by
        rintro s _ _ ⟨⟩ c mem
        exact List.mem_takeWhile_imp mem
      refine second.bind fun l chars => ?_
      have some : (check (l ≠ [])).Gives fun _ => l ≠ [] := by
        intro s a rest read
        by_contra empty
        rw [check, decide_eq_false (by simpa using empty)] at read
        cases read
      exact some.bind fun _ some => gives_pure ⟨some, chars, fun _ same => Option.some.inj same ▸ labelled⟩
  | false =>
      exact gives_pure ⟨isLabel_ne labelled, fun _ => isNameChar_of_mem_label labelled, fun _ none => by cases none⟩

theorem attributes_addEntity (d : Declarations) (name : List Char) (text : Option (List Char)) :
    (d.addEntity name text).attributes = d.attributes := by
  rw [Declarations.addEntity]
  split <;> rfl

theorem clean_addAttribute {a : AttributeDecl} (clean : d.Clean) (new : a.Clean) : (d.addAttribute a).Clean := by
  rw [Declarations.addAttribute]
  split
  case isTrue => exact List.forall_mem_append.mpr ⟨clean, List.forall_mem_singleton.mpr new⟩
  case isFalse => exact clean

theorem mem_intercalate_iff {c : Char} {mark : List Char} {parts : List (List Char)} (some : c ∉ mark) :
    c ∈ mark.intercalate parts ↔ ∃ part ∈ parts, c ∈ part := by
  induction parts with
  | nil => simp [List.intercalate]
  | cons part parts ih =>
      cases parts with
      | nil => simp [List.intercalate]
      | cons next parts =>
          rw [List.intercalate_cons_cons, List.mem_append, List.mem_append, ih]
          simp [some]

/-- Only spaces are added and taken away. -/
theorem clean_collapseSpaces {value : List Char} (clean : Clean value) : Clean (collapseSpaces value) := by
  intro c mem
  by_cases space : c = ' '
  · subst space
    decide
  · have other : c ∉ [' '] := by simpa using space
    obtain ⟨part, listed, inside⟩ := (mem_intercalate_iff other).mp mem
    have whole := (mem_intercalate_iff other).mpr ⟨part, (List.mem_filter.mp listed).1, inside⟩
    rw [List.intercalate_splitOn] at whole
    exact clean c whole

theorem attributes_take? {names : List (List Char)} {d' : Declarations} (taken : d.take? names = some d') :
    d'.attributes = d.attributes := by
  rw [Declarations.take?] at taken
  split at taken
  case isTrue => cases taken
  case isFalse =>
    obtain rfl := Option.some.inj taken
    rfl

theorem clean_default? {collapsed : Bool} {s value : List Char} {d' : Declarations}
    (read : d.default? collapsed s = some (value, d')) : Clean value ∧ d'.attributes = d.attributes := by
  simp only [Declarations.default?, Option.bind_eq_bind, Option.bind_eq_some_iff, Option.pure_def] at read
  obtain ⟨pieces, parts, d₁, taken, plain, expanded, made⟩ := read
  obtain ⟨rfl, rfl⟩ := Prod.mk.inj (Option.some.inj made)
  have clean : Clean plain := clean_of_expandValue (clean_of_valuePieces? parts) expanded
  refine ⟨?_, attributes_take? taken⟩
  split
  case isTrue => exact clean_collapseSpaces clean
  case isFalse => exact clean

/-- An entity is no attribute. -/
theorem gives_entityDecl (clean : d.Clean) : (entityDecl d).Gives Declarations.Clean := by
  have added (name : List Char) (text : Option (List Char)) (parameter : Bool) :
      Declarations.Clean (if parameter = true then d else d.addEntity name text) := by
    split
    case isTrue => exact clean
    case isFalse =>
      rw [Declarations.Clean, attributes_addEntity]
      exact clean
  refine gives_bind fun _ => gives_bind fun parameter => gives_skip fun _ => ?_
  refine gives_bind fun name => gives_bind fun _ => gives_bind fun word => ?_
  cases word with
  | some word =>
      refine gives_bind fun _ => gives_bind fun wide => ?_
      have close (_ : Unit) : Reader.Gives (do
          exactly ">"
          pure (if parameter = true then d else d.addEntity name none)) Declarations.Clean :=
        gives_bind fun _ => gives_pure (added name none parameter)
      dsimp only
      split
      case isTrue =>
        refine gives_bind fun data => ?_
        cases data with
        | true => exact gives_bind fun _ => gives_bind fun _ => gives_bind close
        | false => exact close ()
      case isFalse => exact close ()
  | none =>
      refine gives_bind fun value => gives_bind fun _ => gives_bind fun _ => ?_
      split
      case isTrue => exact gives_bind fun text => gives_pure (added name (some text) parameter)
      case isFalse => exact gives_pure clean

theorem gives_attributesDecl (clean : d.Clean) : (attributesDecl d).Gives Declarations.Clean := by
  refine gives_bind fun _ => gives_bind fun element => gives_untilDone (fun d clean => ?_) clean
  refine gives_bind fun wide => gives_bind fun done => ?_
  cases done with
  | true => exact gives_pure clean
  | false =>
      refine gives_bind fun _ => gives_declaredName.bind fun name readable => ?_
      refine gives_bind fun _ => gives_bind fun collapsed => gives_bind fun _ => ?_
      have bare : (AttributeDecl.mk element name collapsed none).Clean := ⟨readable, by simp⟩
      refine gives_bind fun required => ?_
      cases required with
      | true => exact gives_pure (clean_addAttribute clean bare)
      | false =>
          refine gives_bind fun implied => ?_
          cases implied with
          | true => exact gives_pure (clean_addAttribute clean bare)
          | false =>
              refine gives_bind fun fixed => gives_skip fun _ => gives_bind fun value => ?_
              split
              case isTrue =>
                refine (gives_lift fun a read => clean_default? read).bind ?_
                rintro ⟨value, d'⟩ ⟨tidy, same⟩
                have kept : d'.Clean := by
                  rw [Declarations.Clean, same]
                  exact clean
                exact gives_pure (clean_addAttribute kept ⟨readable, by rintro _ ⟨⟩; exact tidy⟩)
              case isFalse => exact gives_pure clean

theorem gives_internalDecls (clean : d.Clean) : (internalDecls d).Gives Declarations.Clean := by
  refine gives_untilDone (fun d clean => ?_) clean
  refine gives_bind fun _ => gives_bind fun done => ?_
  cases done with
  | true => exact gives_pure clean
  | false =>
  refine gives_bind fun comment => ?_
  cases comment with
  | true => exact gives_bind fun _ => gives_pure clean
  | false =>
  refine gives_bind fun instruction => ?_
  cases instruction with
  | true => exact gives_bind fun _ => gives_pure clean
  | false =>
  refine gives_bind fun entity => ?_
  cases entity with
  | true => exact (gives_entityDecl clean).bind fun _ clean => gives_pure clean
  | false =>
  refine gives_bind fun attributes => ?_
  cases attributes with
  | true => exact (gives_attributesDecl clean).bind fun _ clean => gives_pure clean
  | false =>
  refine gives_bind fun element => ?_
  cases element with
  | true => exact gives_bind fun _ => gives_pure clean
  | false =>
  refine gives_bind fun notation_ => ?_
  cases notation_ with
  | true => exact gives_bind fun _ => gives_pure clean
  | false => exact gives_bind fun _ => gives_bind fun _ => gives_bind fun _ => gives_pure clean

theorem gives_doctype (clean : d.Clean) : (doctype d).Gives Declarations.Clean := by
  refine gives_bind fun _ => gives_bind fun _ => gives_bind fun wide => ?_
  have inside (d : Declarations) (clean : d.Clean) : Reader.Gives (do
      let d ← if ← next "[" then do
          let d ← internalDecls d
          spaces
          pure d
        else pure d
      exactly ">"
      pure d) Declarations.Clean := by
    refine gives_bind fun bracket => ?_
    cases bracket with
    | true =>
        exact (gives_internalDecls clean).bind fun _ clean => gives_bind fun _ =>
          (gives_pure clean).bind fun _ clean => gives_bind fun _ => gives_pure clean
    | false => exact (gives_pure clean).bind fun _ clean => gives_bind fun _ => gives_pure clean
  have partly : Declarations.Clean { d with partly := true } := clean
  -- What is read before the bracket ends in the same way whether there was a space or not.
  cases wide
  all_goals
    refine gives_bind fun outside => ?_
    cases outside with
    | some word => exact gives_bind fun _ => gives_bind fun _ => (gives_pure partly).bind inside
    | none => exact (gives_pure clean).bind inside

theorem clean_of_doctype? {s rest : List Char} {d' : Declarations} (clean : d.Clean)
    (read : doctype? d s = some (d', rest)) : d'.Clean := by
  rw [doctype?] at read
  split at read
  case h_1 => exact gives_doctype clean _ _ _ read
  case h_2 =>
    obtain ⟨rfl, -⟩ := Prod.mk.inj (Option.some.inj read)
    exact clean

end SvgForm.Xml
