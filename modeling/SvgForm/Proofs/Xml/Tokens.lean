import SvgForm.Proofs.Xml.Spelling
import SvgForm.Xml.Element
/-! # What content is made of

Every name that is read has labels for its parts, and every character is one that markup may hold. That stays so
while references are expanded and while the tokens are put together.
-/

namespace SvgForm.Xml

variable {c : Char} {s rest : List Char} {q : QName} {t : Token} {ts : List Token} {depth : Nat}

/-- The characters are ones that markup may hold. -/
def Clean (s : List Char) : Prop :=
  ∀ c ∈ s, isMarkupChar c = true

theorem clean_iff : Clean s ↔ s.all isMarkupChar = true :=
  List.all_eq_true.symm

instance (s : List Char) : Decidable (Clean s) :=
  decidable_of_iff' _ clean_iff

theorem Clean.append {t : List Char} (first : Clean s) (second : Clean t) : Clean (s ++ t) :=
  List.forall_mem_append.mpr ⟨first, second⟩

def Piece.Clean : Piece → Prop
  | .char c => isMarkupChar c = true
  | .entity _ => True

/-- The name is proper, and the value clean. -/
def CleanAttribute (a : QName × List Piece) : Prop :=
  a.1.IsProper ∧ ∀ p ∈ a.2, p.Clean

def Token.Clean : Token → Prop
  | .start name attributes _ => name.IsProper ∧ ∀ a ∈ attributes, CleanAttribute a
  | .char c => isMarkupChar c = true
  | .stop _ | .entity _ => True

/-! ## Tokens as they are read -/

theorem clean_of_numbered? {base : Nat} {digits : List Char} (read : numbered? base digits = some c) :
    isMarkupChar c = true := by
  rw [numbered?] at read
  split at read
  case isTrue good =>
    obtain rfl := Option.some.inj read
    exact good.2.2
  case isFalse => cases read

theorem clean_of_numberedReference? {base : Nat} (read : numberedReference? base s = some (c, rest)) :
    isMarkupChar c = true := by
  rw [numberedReference?] at read
  split at read
  case h_1 =>
    obtain ⟨_, number, same⟩ := Option.map_eq_some_iff.mp read
    obtain ⟨rfl, -⟩ := Prod.mk.inj same
    exact clean_of_numbered? number
  case h_2 => cases read

theorem mem_of_lookup {α β : Type} [BEq α] [LawfulBEq α] {l : List (α × β)} {k : α} {v : β}
    (found : l.lookup k = some v) : (k, v) ∈ l := by
  obtain ⟨before, after, split, -⟩ := List.lookup_eq_some_iff.mp found
  exact split ▸ List.mem_append_right before List.mem_cons_self

theorem clean_of_reference? {p : Piece} (read : reference? s = some (p, rest)) : p.Clean := by
  have builtin : ∀ e ∈ builtinEntities, isMarkupChar e.2 = true := by decide
  rw [reference?.eq_def] at read
  split at read
  case h_1 | h_2 =>
    obtain ⟨⟨c, _⟩, number, same⟩ := Option.map_eq_some_iff.mp read
    obtain ⟨rfl, -⟩ := Prod.mk.inj same
    exact clean_of_numberedReference? number
  case h_3 =>
    split at read
    case h_1 name _ _ =>
      split at read
      case h_1 c known =>
        obtain ⟨rfl, -⟩ := Prod.mk.inj (Option.some.inj read)
        exact builtin (name, c) (mem_of_lookup known)
      case h_2 =>
        obtain ⟨rfl, -⟩ := Prod.mk.inj (Option.some.inj read)
        trivial
    case h_2 => cases read

theorem clean_of_valuePieces? {pieces : List Piece} (read : valuePieces? s = some pieces) : ∀ p ∈ pieces, p.Clean := by
  fun_induction valuePieces? s generalizing pieces with
  | case1 =>
      obtain rfl := Option.some.inj read
      simp
  | case2 s p rest found ih =>
      obtain ⟨more, later, rfl⟩ := Option.map_eq_some_iff.mp read
      exact List.forall_mem_cons.mpr ⟨clean_of_reference? found, ih later⟩
  | case3 => cases read
  | case4 => cases read
  | case5 c s _ good ih =>
      obtain ⟨more, later, rfl⟩ := Option.map_eq_some_iff.mp read
      refine List.forall_mem_cons.mpr ⟨?_, ih later⟩
      rw [not_or] at good
      simp only [Piece.Clean]
      split
      case isTrue => decide
      case isFalse => simpa using good.2

theorem clean_of_attribute? {a : QName × List Piece} (read : attribute? s = some (a, rest)) : CleanAttribute a := by
  rw [attribute?] at read
  split at read
  case h_1 => cases read
  case h_2 name _ named =>
    split at read
    case h_1 => cases read
    case h_2 =>
      obtain ⟨pieces, value, same⟩ := Option.map_eq_some_iff.mp read
      obtain ⟨rfl, -⟩ := Prod.mk.inj same
      exact ⟨(of_qname? named).1, clean_of_valuePieces? value⟩

theorem clean_of_attributes? {attributes : List (QName × List Piece)} {closed : Bool}
    (read : attributes? s = some ((attributes, closed), rest)) : ∀ a ∈ attributes, CleanAttribute a := by
  fun_induction attributes? s generalizing attributes closed with
  | case1 | case2 =>
      obtain ⟨tag, -⟩ := Prod.mk.inj (Option.some.inj read)
      obtain ⟨rfl, -⟩ := Prod.mk.inj tag
      simp
  | case3 s _ _ _ a rest found ih =>
      obtain ⟨⟨⟨more, _⟩, _⟩, later, same⟩ := Option.map_eq_some_iff.mp read
      obtain ⟨tag, rfl⟩ := Prod.mk.inj same
      obtain ⟨rfl, rfl⟩ := Prod.mk.inj tag
      exact List.forall_mem_cons.mpr ⟨clean_of_attribute? found, ih later⟩
  | case4 => cases read
  | case5 => cases read

theorem clean_of_startTag? (read : startTag? s = some (t, rest)) : t.Clean := by
  rw [startTag?] at read
  split at read
  case h_1 named =>
    obtain ⟨⟨⟨attributes, closed⟩, _⟩, all, same⟩ := Option.map_eq_some_iff.mp read
    obtain ⟨rfl, -⟩ := Prod.mk.inj same
    exact ⟨(of_qname? named).1, clean_of_attributes? all⟩
  case h_2 => cases read

theorem clean_of_endTag? (read : endTag? s = some (t, rest)) : t.Clean := by
  rw [endTag?] at read
  split at read
  case h_1 =>
    split at read
    case h_1 =>
      obtain ⟨rfl, -⟩ := Prod.mk.inj (Option.some.inj read)
      trivial
    case h_2 => cases read
  case h_2 => cases read

theorem clean_of_literal? (read : literal? s = some (ts, rest)) : ∀ t ∈ ts, t.Clean := by
  fun_induction literal? s generalizing ts with
  | case1 =>
      obtain ⟨rfl, -⟩ := Prod.mk.inj (Option.some.inj read)
      simp
  | case2 c s _ good ih =>
      obtain ⟨⟨more, _⟩, later, same⟩ := Option.map_eq_some_iff.mp read
      obtain ⟨rfl, rfl⟩ := Prod.mk.inj same
      exact List.forall_mem_cons.mpr ⟨good, ih later⟩
  | case3 => cases read
  | case4 => cases read

theorem clean_of_item? (read : item? s = some (ts, rest)) : ∀ t ∈ ts, t.Clean := by
  rw [item?.eq_def] at read
  split at read
  case h_1 => cases read
  case h_2 | h_4 =>
    obtain ⟨_, -, same⟩ := Option.map_eq_some_iff.mp read
    obtain ⟨rfl, -⟩ := Prod.mk.inj same
    simp
  case h_3 => exact clean_of_literal? read
  case h_5 =>
    obtain ⟨⟨t, _⟩, tag, same⟩ := Option.map_eq_some_iff.mp read
    obtain ⟨rfl, -⟩ := Prod.mk.inj same
    exact List.forall_mem_singleton.mpr (clean_of_endTag? tag)
  case h_6 =>
    obtain ⟨⟨t, _⟩, tag, same⟩ := Option.map_eq_some_iff.mp read
    obtain ⟨rfl, -⟩ := Prod.mk.inj same
    exact List.forall_mem_singleton.mpr (clean_of_startTag? tag)
  case h_7 =>
    obtain ⟨⟨p, _⟩, found, same⟩ := Option.map_eq_some_iff.mp read
    obtain ⟨rfl, -⟩ := Prod.mk.inj same
    have clean := clean_of_reference? found
    cases p <;> exact List.forall_mem_singleton.mpr clean
  case h_8 => cases read
  case h_9 =>
    split at read
    case isTrue good =>
      obtain ⟨rfl, -⟩ := Prod.mk.inj (Option.some.inj read)
      exact List.forall_mem_singleton.mpr good
    case isFalse => cases read

theorem clean_of_tokens? (read : tokens? s = some ts) : ∀ t ∈ ts, t.Clean := by
  fun_induction tokens? s generalizing ts with
  | case1 =>
      obtain rfl := Option.some.inj read
      simp
  | case2 c s first rest found ih =>
      obtain ⟨more, later, rfl⟩ := Option.map_eq_some_iff.mp read
      exact List.forall_mem_append.mpr ⟨clean_of_item? found, ih later⟩
  | case3 => cases read

theorem clean_of_elementTokens? (read : elementTokens? depth s = some (ts, rest)) : ∀ t ∈ ts, t.Clean := by
  fun_induction elementTokens? depth s generalizing ts with
  | case1 depth s first rest found =>
      obtain ⟨rfl, -⟩ := Prod.mk.inj (Option.some.inj read)
      exact clean_of_item? found
  | case2 depth s first rest found _ ih =>
      obtain ⟨⟨more, _⟩, later, same⟩ := Option.map_eq_some_iff.mp read
      obtain ⟨rfl, rfl⟩ := Prod.mk.inj same
      exact List.forall_mem_append.mpr ⟨clean_of_item? found, ih later⟩
  | case3 => cases read

/-! ## Expansion -/

variable {d : Declarations}

theorem clean_of_expandValue {pieces : List Piece} {value : List Char} (clean : ∀ p ∈ pieces, p.Clean)
    (expanded : expandValue d depth pieces = some value) : Clean value := by
  induction depth generalizing pieces value with
  | zero =>
      intro c mem
      obtain ⟨p, there, made⟩ := exists_of_mem_mapM expanded mem
      cases p with
      | char x => exact Option.some.inj made ▸ clean _ there
      | entity => cases made
  | succ depth ih =>
      obtain ⟨parts, all, rfl⟩ := Option.map_eq_some_iff.mp expanded
      intro c mem
      obtain ⟨part, listed, inside⟩ := List.mem_flatten.mp mem
      obtain ⟨p, there, made⟩ := exists_of_mem_mapM all listed
      cases p with
      | char x =>
          obtain rfl := Option.some.inj made
          exact List.mem_singleton.mp inside ▸ clean _ there
      | entity name =>
          simp only [Option.bind_eq_bind, Option.bind_eq_some_iff] at made
          obtain ⟨text, -, inner, pieces, made⟩ := made
          exact ih (clean_of_valuePieces? pieces) made c inside

theorem clean_of_expandContent {ts' : List Token} (clean : ∀ t ∈ ts, t.Clean)
    (expanded : expandContent d depth ts = some ts') : ∀ t ∈ ts', t.Clean := by
  induction depth generalizing ts ts' with
  | zero =>
      intro t mem
      obtain ⟨x, there, made⟩ := exists_of_mem_mapM expanded mem
      cases x with
      | entity => cases made
      | start | stop | char => exact Option.some.inj made ▸ clean _ there
  | succ depth ih =>
      obtain ⟨parts, all, rfl⟩ := Option.map_eq_some_iff.mp expanded
      intro t mem
      obtain ⟨part, listed, inside⟩ := List.mem_flatten.mp mem
      obtain ⟨x, there, made⟩ := exists_of_mem_mapM all listed
      cases x with
      | entity name =>
          simp only [Option.bind_eq_bind, Option.bind_eq_some_iff] at made
          obtain ⟨text?, -, made⟩ := made
          split at made
          case h_1 text =>
            simp only [Option.bind_eq_some_iff] at made
            obtain ⟨tokens, read, inner, expanded, made⟩ := made
            split at made
            case isTrue =>
              obtain rfl := Option.some.inj made
              exact ih (clean_of_tokens? read) expanded t inside
            case isFalse => cases made
          case h_2 => cases made
      | start | stop | char =>
          obtain rfl := Option.some.inj made
          exact List.mem_singleton.mp inside ▸ clean _ there

/-! ## Drafts -/

structure Draft.Clean (e : Draft) : Prop where
  name : e.name.IsProper
  attributes : ∀ a ∈ e.attributes, CleanAttribute a
  text : Xml.Clean e.text
  tail : Xml.Clean e.tail

structure Content.Clean (content : Content) : Prop where
  text : Xml.Clean content.text
  elements : ∀ e ∈ content.elements.toList, e.Clean

theorem Content.Clean.empty : ({} : Content).Clean := ⟨by simp [Xml.Clean], by simp [Forest.toList]⟩

theorem clean_of_push {here here' : Content} {stopped stopped' : List (QName × Content)} (token : t.Clean)
    (clean : here.Clean) (outside : ∀ p ∈ stopped, p.2.Clean)
    (pushed : Content.push t here stopped = some (here', stopped')) : here'.Clean ∧ ∀ p ∈ stopped', p.2.Clean := by
  rw [Content.push.eq_def] at pushed
  split at pushed
  case h_1 =>
    obtain ⟨rfl, rfl⟩ := Prod.mk.inj (Option.some.inj pushed)
    exact ⟨⟨List.forall_mem_cons.mpr ⟨token, clean.text⟩, clean.elements⟩, outside⟩
  case h_2 => cases pushed
  case h_3 =>
    obtain ⟨rfl, rfl⟩ := Prod.mk.inj (Option.some.inj pushed)
    exact ⟨.empty, List.forall_mem_cons.mpr ⟨clean, outside⟩⟩
  case h_4 =>
    obtain ⟨rfl, rfl⟩ := Prod.mk.inj (Option.some.inj pushed)
    have draft : Draft.Clean ⟨_, _, [], here.text⟩ := ⟨token.1, token.2, by simp [Xml.Clean], clean.text⟩
    exact ⟨⟨by simp [Xml.Clean], List.forall_mem_cons.mpr ⟨draft, clean.elements⟩⟩, outside⟩
  case h_5 =>
    split at pushed
    case h_1 => cases pushed
    case h_2 other after stopped =>
      obtain ⟨later, outside⟩ := List.forall_mem_cons.mp outside
      split at pushed
      case isFalse => cases pushed
      case isTrue =>
        obtain ⟨rfl, rfl⟩ := Prod.mk.inj (Option.some.inj pushed)
        have draft : Draft.Clean ⟨_, _, here.text, after.text⟩ := ⟨token.1, token.2, clean.text, later.text⟩
        exact ⟨⟨by simp [Xml.Clean], List.forall_mem_cons.mpr ⟨draft,
          List.forall_mem_append.mpr ⟨clean.elements, later.elements⟩⟩⟩, outside⟩

theorem clean_of_read {here : Content} {stopped : List (QName × Content)} (clean : ∀ t ∈ ts, t.Clean)
    (read : Content.read ts = some (here, stopped)) : here.Clean ∧ ∀ p ∈ stopped, p.2.Clean := by
  induction ts generalizing here stopped with
  | nil =>
      obtain ⟨rfl, rfl⟩ := Prod.mk.inj (Option.some.inj read)
      exact ⟨.empty, by simp⟩
  | cons t ts ih =>
      obtain ⟨first, later⟩ := List.forall_mem_cons.mp clean
      obtain ⟨⟨after, open_⟩, rest, pushed⟩ := Option.bind_eq_some_iff.mp read
      obtain ⟨inside, outside⟩ := ih later rest
      exact clean_of_push first inside outside pushed

/-! ## The end of an element -/

/-- A token that can end an element. -/
def Token.Ends : Token → Prop
  | .stop _ | .start _ _ true => True
  | _ => False

theorem item?_shape (read : item? s = some (ts, rest)) : (∀ t ∈ ts, ∃ c, t = .char c) ∨ ∃ t, ts = [t] := by
  have literal {s rest : List Char} {ts : List Token} (read : literal? s = some (ts, rest)) :
      ∀ t ∈ ts, ∃ c, t = .char c := by
    fun_induction literal? s generalizing ts with
    | case1 =>
        obtain ⟨rfl, -⟩ := Prod.mk.inj (Option.some.inj read)
        simp
    | case2 c s _ _ ih =>
        obtain ⟨⟨more, _⟩, later, same⟩ := Option.map_eq_some_iff.mp read
        obtain ⟨rfl, rfl⟩ := Prod.mk.inj same
        exact List.forall_mem_cons.mpr ⟨⟨c, rfl⟩, ih later⟩
    | case3 => cases read
    | case4 => cases read
  rw [item?.eq_def] at read
  split at read
  case h_1 => cases read
  case h_2 | h_4 =>
    obtain ⟨_, -, same⟩ := Option.map_eq_some_iff.mp read
    obtain ⟨rfl, -⟩ := Prod.mk.inj same
    simp
  case h_3 => exact .inl (literal read)
  case h_5 | h_6 | h_7 =>
    obtain ⟨_, -, same⟩ := Option.map_eq_some_iff.mp read
    obtain ⟨rfl, -⟩ := Prod.mk.inj same
    exact .inr ⟨_, rfl⟩
  case h_8 => cases read
  case h_9 =>
    split at read
    case isTrue =>
      obtain ⟨rfl, -⟩ := Prod.mk.inj (Option.some.inj read)
      exact .inr ⟨_, rfl⟩
    case isFalse => cases read

theorem foldl_depthAfter_chars (chars : ∀ t ∈ ts, ∃ c, t = .char c) (depth : Nat) :
    ts.foldl depthAfter depth = depth := by
  induction ts with
  | nil => rfl
  | cons t ts ih =>
      obtain ⟨⟨c, rfl⟩, later⟩ := List.forall_mem_cons.mp chars
      exact ih later

/-- Inside an element, the tokens up to its end have an end tag last. -/
theorem exists_stop_of_elementTokens? (inside : depth ≠ 0) (read : elementTokens? depth s = some (ts, rest)) :
    ∃ before q, ts = before ++ [.stop q] := by
  fun_induction elementTokens? depth s generalizing ts with
  | case1 depth s first rest found closed =>
      obtain ⟨rfl, -⟩ := Prod.mk.inj (Option.some.inj read)
      rcases item?_shape found with chars | ⟨t, rfl⟩
      · exact absurd ((foldl_depthAfter_chars chars depth).symm.trans closed) inside
      · have closed : depthAfter depth t = 0 := closed
        cases t with
        | stop q => exact ⟨[], q, rfl⟩
        | char | entity => exact absurd closed inside
        | start _ _ empty =>
            cases empty with
            | true => exact absurd closed inside
            | false => exact absurd closed (Nat.succ_ne_zero depth)
  | case2 depth s first rest found open_ ih =>
      obtain ⟨⟨more, _⟩, later, same⟩ := Option.map_eq_some_iff.mp read
      obtain ⟨rfl, rfl⟩ := Prod.mk.inj same
      obtain ⟨before, q, rfl⟩ := ih open_ later
      exact ⟨first ++ before, q, by simp⟩
  | case3 => cases read

/-- The tokens of an element end where the element does. -/
theorem exists_ends_of_elementTokens? (read : elementTokens? 0 s = some (ts, rest))
    (start : ts.head?.any Token.isStart = true) : ∃ before t, ts = before ++ [t] ∧ t.Ends := by
  rw [elementTokens?] at read
  split at read
  case h_1 first _ found =>
    split at read
    case isTrue closed =>
      obtain ⟨rfl, -⟩ := Prod.mk.inj (Option.some.inj read)
      rcases item?_shape found with chars | ⟨t, rfl⟩
      · cases first with
        | nil => cases start
        | cons t ts =>
            obtain ⟨c, rfl⟩ := chars t List.mem_cons_self
            cases start
      · cases t with
        | stop | char | entity => cases start
        | start name attributes empty =>
            cases empty with
            | true => exact ⟨[], _, rfl, trivial⟩
            | false => cases closed
    case isFalse open_ =>
      obtain ⟨⟨more, _⟩, later, same⟩ := Option.map_eq_some_iff.mp read
      obtain ⟨rfl, -⟩ := Prod.mk.inj same
      obtain ⟨before, q, rfl⟩ := exists_stop_of_elementTokens? open_ later
      exact ⟨first ++ before, .stop q, by simp, trivial⟩
  case h_2 => cases read

/-- Expansion keeps a token that is no reference in its place at the end. -/
theorem ends_of_expandContent {ts' : List Token} (last : t.Ends) (expanded : expandContent d depth (ts ++ [t]) = some ts') :
    ∃ before, ts' = before ++ [t] := by
  cases depth with
  | zero =>
      obtain ⟨before, end_, -, one, rfl⟩ := forall₂_append_left_iff.mp (mapM_eq_some_iff.mp expanded)
      obtain ⟨t', _, made, none, rfl⟩ := List.forall₂_cons_left_iff.mp one
      obtain rfl := List.forall₂_nil_left_iff.mp none
      cases t with
      | start | stop => exact ⟨before, by rw [Option.some.inj made]⟩
      | char | entity => cases last
  | succ depth =>
      obtain ⟨parts, all, rfl⟩ := Option.map_eq_some_iff.mp expanded
      obtain ⟨before, end_, -, one, rfl⟩ := forall₂_append_left_iff.mp (mapM_eq_some_iff.mp all)
      obtain ⟨part, _, made, none, rfl⟩ := List.forall₂_cons_left_iff.mp one
      obtain rfl := List.forall₂_nil_left_iff.mp none
      cases t with
      | start | stop => exact ⟨before.flatten, by rw [← Option.some.inj made]; simp⟩
      | char | entity => cases last

/-- The last of the outermost elements so far has no tail. -/
def Tailless (here : Content) (stopped : List (QName × Content)) : Prop :=
  (stopped = [] → here.elements.roots.getLast?.map Draft.tail = some []) ∧
    ∀ last ∈ stopped.getLast?, last.2.elements = .nil ∧ last.2.text = [] ∨
      last.2.elements.roots.getLast?.map Draft.tail = some []

theorem tailless_of_push {here here' : Content} {stopped stopped' : List (QName × Content)}
    (tailless : Tailless here stopped) (pushed : Content.push t here stopped = some (here', stopped')) :
    Tailless here' stopped' := by
  rw [Content.push.eq_def] at pushed
  split at pushed
  case h_1 =>
    obtain ⟨rfl, rfl⟩ := Prod.mk.inj (Option.some.inj pushed)
    exact tailless
  case h_2 => cases pushed
  case h_3 =>
    obtain ⟨rfl, rfl⟩ := Prod.mk.inj (Option.some.inj pushed)
    refine ⟨by simp, fun last mem => ?_⟩
    cases stopped with
    | nil =>
        obtain rfl := Option.some.inj mem
        exact .inr (tailless.1 rfl)
    | cons p stopped =>
        rw [List.getLast?_cons_cons] at mem
        exact tailless.2 last mem
  case h_4 =>
    obtain ⟨rfl, rfl⟩ := Prod.mk.inj (Option.some.inj pushed)
    refine ⟨fun none => ?_, tailless.2⟩
    have outer := tailless.1 none
    cases row : here.elements.roots with
    | nil => simp [row] at outer
    | cons e row' => simpa [Forest.roots, row] using outer
  case h_5 =>
    split at pushed
    case h_1 => cases pushed
    case h_2 other after stopped =>
      split at pushed
      case isFalse => cases pushed
      case isTrue =>
        obtain ⟨rfl, rfl⟩ := Prod.mk.inj (Option.some.inj pushed)
        refine ⟨?_, fun last mem => ?_⟩
        · rintro rfl
          rcases tailless.2 (other, after) rfl with ⟨none, blank⟩ | outer
          · have none : after.elements = .nil := none
            have blank : after.text = [] := blank
            simp [Forest.roots, none, blank]
          · cases row : after.elements.roots with
            | nil => simp [row] at outer
            | cons e row' => simpa [Forest.roots, row] using outer
        · cases stopped with
          | nil => cases mem
          | cons p stopped => exact tailless.2 last (by rwa [List.getLast?_cons_cons])

theorem tailless_of_read {here : Content} {stopped : List (QName × Content)} (last : t.Ends)
    (read : Content.read (ts ++ [t]) = some (here, stopped)) : Tailless here stopped := by
  induction ts generalizing here stopped with
  | nil =>
      cases t with
      | stop q =>
          obtain ⟨rfl, rfl⟩ := Prod.mk.inj (Option.some.inj read)
          exact ⟨by simp, by rintro _ ⟨⟩; exact .inl ⟨rfl, rfl⟩⟩
      | start name attributes closed =>
          cases closed with
          | true =>
              obtain ⟨rfl, rfl⟩ := Prod.mk.inj (Option.some.inj read)
              exact ⟨fun _ => rfl, by simp⟩
          | false => cases last
      | char | entity => cases last
  | cons t ts ih =>
      obtain ⟨⟨after, open_⟩, rest, pushed⟩ := Option.bind_eq_some_iff.mp read
      exact tailless_of_push (ih rest) pushed

end SvgForm.Xml
