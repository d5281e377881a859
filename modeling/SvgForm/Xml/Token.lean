import SvgForm.Xml.Name
/-! # Tokens of content

Content is read as tags, characters and references to entities; comments and processing instructions
leave nothing behind. Each reader returns what is left of the text, which is shorter, so reading ends.
-/

namespace SvgForm.Xml

/-- A part of an attribute's value: a character, or a reference to an entity of that name. -/
inductive Piece
  | char (c : Char)
  | entity (name : List Char)

inductive Token
  /-- A start tag; one that is `closed` stands for an element without content. -/
  | start (name : QName) (attributes : List (QName × List Piece)) (closed : Bool)
  | stop (name : QName)
  | char (c : Char)
  | entity (name : List Char)

def Token.isStart : Token → Bool
  | .start .. => true
  | _ => false

/-! ## Names -/

def label? : List Char → Option (List Char × List Char)
  | [] => none
  | c :: s =>
    if isNameStart c then some (c :: s.takeWhile isNameChar, s.dropWhile isNameChar) else none

def qname? (s : List Char) : Option (QName × List Char) :=
  match label? s with
  | some (a, ':' :: rest) => (label? rest).map fun (b, rest) => (⟨some a, b⟩, rest)
  | some (a, rest) => some (⟨none, a⟩, rest)
  | none => none

/-! ## References -/

/-- The value of a hexadecimal digit. -/
def hexValue? (c : Char) : Option Nat :=
  if c.isDigit then some (c.toNat - 48)
  else if 'a' ≤ c ∧ c ≤ 'f' then some (c.toNat - 87)
  else if 'A' ≤ c ∧ c ≤ 'F' then some (c.toNat - 55)
  else none

/-- Whether the character is a digit to the base. -/
def isBaseDigit (base : Nat) (c : Char) : Bool :=
  (hexValue? c).any (· < base)

/-- The character that digits to a base number, if markup may hold it. -/
def numbered? (base : Nat) (digits : List Char) : Option Char :=
  let n := digits.foldl (fun n c => base * n + (hexValue? c).getD 0) 0
  if digits ≠ [] ∧ n.isValidChar ∧ isMarkupChar (.ofNat n) then some (.ofNat n) else none

/-- Reads digits to a base and the semicolon after them. -/
def numberedReference? (base : Nat) (s : List Char) : Option (Char × List Char) :=
  match s.dropWhile (isBaseDigit base) with
  | ';' :: rest => (numbered? base (s.takeWhile (isBaseDigit base))).map (·, rest)
  | _ => none

/-- The entities that every document has. -/
def builtinEntities : List (List Char × Char) :=
  [("amp".toList, '&'), ("lt".toList, '<'), ("gt".toList, '>'), ("quot".toList, '"'),
    ("apos".toList, '\x27')]

/-- Reads a reference, of which the ampersand is read already. -/
def reference? (s : List Char) : Option (Piece × List Char) :=
  match s with
  | '#' :: 'x' :: s => (numberedReference? 16 s).map fun (c, rest) => (.char c, rest)
  | '#' :: s => (numberedReference? 10 s).map fun (c, rest) => (.char c, rest)
  | s =>
    match label? s with
    | some (name, ';' :: rest) =>
      match builtinEntities.lookup name with
      | some c => some (.char c, rest)
      | none => some (.entity name, rest)
    | _ => none

theorem label?_length {s name rest : List Char} (h : label? s = some (name, rest)) :
    rest.length < s.length := by
  cases s with
  | nil => simp [label?] at h
  | cons c s =>
    simp only [label?] at h
    split at h
    · simp only [Option.some.injEq, Prod.mk.injEq] at h
      have := (List.dropWhile_suffix isNameChar (l := s)).length_le
      simp only [← h.2, List.length_cons]
      omega
    · simp at h

theorem numberedReference?_length {base : Nat} {s rest : List Char} {c : Char}
    (h : numberedReference? base s = some (c, rest)) : rest.length < s.length := by
  simp only [numberedReference?] at h
  split at h
  · rename_i r hr
    have := (List.dropWhile_suffix (isBaseDigit base) (l := s)).length_le
    simp only [Option.map_eq_some_iff, Prod.mk.injEq] at h
    obtain ⟨_, _, _, rfl⟩ := h
    simp only [hr, List.length_cons] at this
    omega
  · simp at h

theorem reference?_length {s rest : List Char} {p : Piece}
    (h : reference? s = some (p, rest)) : rest.length < s.length := by
  simp only [reference?] at h
  split at h
  · obtain ⟨⟨c, r⟩, hr, he⟩ := Option.map_eq_some_iff.1 h
    have := numberedReference?_length hr
    simp only [Prod.mk.injEq] at he
    simp only [List.length_cons, ← he.2]
    omega
  · obtain ⟨⟨c, r⟩, hr, he⟩ := Option.map_eq_some_iff.1 h
    have := numberedReference?_length hr
    simp only [Prod.mk.injEq] at he
    simp only [List.length_cons, ← he.2]
    omega
  · split at h
    · rename_i name r hl
      have := label?_length hl
      simp only [List.length_cons] at this
      split at h <;> simp only [Option.some.injEq, Prod.mk.injEq] at h <;> (rw [← h.2]; omega)
    · simp at h

/-! ## Tags -/

/-- The pieces of an attribute's value. White space other than a reference is a space. -/
def valuePieces? (s : List Char) : Option (List Piece) :=
  match s with
  | [] => some []
  | c :: s =>
    if c = '&' then
      match _h : reference? s with
      | some (p, rest) => (valuePieces? rest).map (p :: ·)
      | none => none
    else if c = '<' ∨ !isMarkupChar c then none
    else (valuePieces? s).map (.char (if isSpace c then ' ' else c) :: ·)
termination_by s.length
decreasing_by
  · have := reference?_length _h
    simp only [List.length_cons]; omega
  · simp

/-- What follows white space, an equals sign and more white space. -/
def afterEquals? (s : List Char) : Option (List Char) :=
  match s.dropWhile isSpace with
  | '=' :: s => some (s.dropWhile isSpace)
  | _ => none

/-- Reads a text between two equal quotes. -/
def enquoted? : List Char → Option (List Char × List Char)
  | [] => none
  | q :: s =>
    if q = '"' ∨ q = '\x27' then Text.cutAtChar? q s else none

def attribute? (s : List Char) : Option ((QName × List Piece) × List Char) :=
  match qname? s with
  | none => none
  | some (name, s) =>
    match (afterEquals? s).bind enquoted? with
    | none => none
    | some (value, rest) => (valuePieces? value).map fun pieces => ((name, pieces), rest)

theorem qname?_length {s rest : List Char} {q : QName}
    (h : qname? s = some (q, rest)) : rest.length < s.length := by
  simp only [qname?] at h
  split at h
  · rename_i hl
    have h₁ := label?_length hl
    obtain ⟨⟨b, r⟩, hr, he⟩ := Option.map_eq_some_iff.1 h
    have h₂ := label?_length hr
    simp only [Prod.mk.injEq] at he
    simp only [List.length_cons] at h₁
    rw [← he.2]; omega
  · rename_i hl
    simp only [Option.some.injEq, Prod.mk.injEq] at h
    rw [← h.2]; exact label?_length hl
  · simp at h

theorem enquoted?_length {s a b : List Char} (h : enquoted? s = some (a, b)) :
    b.length < s.length := by
  cases s with
  | nil => simp [enquoted?] at h
  | cons q s =>
    simp only [enquoted?] at h
    split at h
    · have := Text.cutAtChar?_length h
      simp only [List.length_cons]; omega
    · simp at h

theorem afterEquals?_length {s rest : List Char} (h : afterEquals? s = some rest) :
    rest.length < s.length := by
  simp only [afterEquals?] at h
  split at h
  · rename_i r hr
    have h₁ := (List.dropWhile_suffix isSpace (l := s)).length_le
    have h₂ := (List.dropWhile_suffix isSpace (l := r)).length_le
    simp only [hr, List.length_cons] at h₁
    simp only [Option.some.injEq] at h
    rw [← h]; omega
  · simp at h

theorem attribute?_length {s rest : List Char} {a : QName × List Piece}
    (h : attribute? s = some (a, rest)) : rest.length < s.length := by
  simp only [attribute?] at h
  split at h
  · simp at h
  · rename_i name s' hq
    split at h
    · simp at h
    · rename_i value r hv
      obtain ⟨t, ht, hr⟩ := Option.bind_eq_some_iff.1 hv
      obtain ⟨_, _, he⟩ := Option.map_eq_some_iff.1 h
      simp only [Prod.mk.injEq] at he
      have h₁ := qname?_length hq
      have h₂ := afterEquals?_length ht
      have h₃ := enquoted?_length hr
      rw [← he.2]; omega

/-- Reads the attributes of a start tag and its end; each attribute follows white space. -/
def attributes? (s : List Char) : Option ((List (QName × List Piece) × Bool) × List Char) :=
  match s.dropWhile isSpace with
  | '>' :: rest => some (([], false), rest)
  | '/' :: '>' :: rest => some (([], true), rest)
  | t =>
    if _ht : t.length < s.length then
      match _ha : attribute? t with
      | some (a, rest) =>
        (attributes? rest).map fun ((more, closed), rest) => ((a :: more, closed), rest)
      | none => none
    else none
termination_by s.length
decreasing_by
  have := attribute?_length _ha
  omega

theorem attributes?_length {s rest : List Char} {a : List (QName × List Piece) × Bool}
    (h : attributes? s = some (a, rest)) : rest.length < s.length := by
  fun_induction attributes? s generalizing a with
  | case1 s r hs =>
    simp only [Option.some.injEq, Prod.mk.injEq] at h
    have := (List.dropWhile_suffix isSpace (l := s)).length_le
    simp only [hs, List.length_cons] at this
    rw [← h.2]; omega
  | case2 s r hs =>
    simp only [Option.some.injEq, Prod.mk.injEq] at h
    have := (List.dropWhile_suffix isSpace (l := s)).length_le
    simp only [hs, List.length_cons] at this
    rw [← h.2]; omega
  | case3 s _ _ ht b r hb ih =>
    obtain ⟨⟨⟨more, closed⟩, r'⟩, hr, he⟩ := Option.map_eq_some_iff.1 h
    simp only [Prod.mk.injEq] at he
    have h₁ := attribute?_length hb
    have h₂ := ih (he.2 ▸ hr)
    omega
  | case4 => simp at h
  | case5 => simp at h

/-- Reads a start tag, of which the angle bracket is read already. -/
def startTag? (s : List Char) : Option (Token × List Char) :=
  match qname? s with
  | some (name, s) =>
    (attributes? s).map fun ((attributes, closed), rest) => (.start name attributes closed, rest)
  | none => none

/-- Reads an end tag, of which the angle bracket and the slash are read already. -/
def endTag? (s : List Char) : Option (Token × List Char) :=
  match qname? s with
  | some (name, s) =>
    match s.dropWhile isSpace with
    | '>' :: rest => some (.stop name, rest)
    | _ => none
  | none => none

/-! ## Comments, instructions and literal text -/

/-- What follows a comment, of which the start is read already. Two hyphens only end it. -/
def afterComment? : List Char → Option (List Char)
  | '-' :: '-' :: '>' :: s => some s
  | '-' :: '-' :: _ => none
  | c :: s => if isMarkupChar c then afterComment? s else none
  | [] => none

def afterInstruction? : List Char → Option (List Char)
  | '?' :: '>' :: s => some s
  | c :: s => if isMarkupChar c then afterInstruction? s else none
  | [] => none

/-- What follows an instruction, of which the start is read already. None is called `xml`. -/
def instruction? (s : List Char) : Option (List Char) :=
  match label? s with
  | some (target, rest) =>
    if target.map Char.toLower = "xml".toList then none
    else
      match rest with
      | '?' :: '>' :: rest => some rest
      | c :: rest => if isSpace c then afterInstruction? rest else none
      | [] => none
  | none => none

/-- Reads literal text, of which the start is read already, up to its end. -/
def literal? : List Char → Option (List Token × List Char)
  | ']' :: ']' :: '>' :: s => some ([], s)
  | c :: s =>
    if isMarkupChar c then (literal? s).map fun (ts, rest) => (.char c :: ts, rest) else none
  | [] => none

/-! ## Content -/

def ofPiece : Piece → Token
  | .char c => .char c
  | .entity name => .entity name

/-- Reads one item of content: a tag, a comment, an instruction, literal text, a reference or a
character. The end of literal text may not stand alone. -/
def item? (s : List Char) : Option (List Token × List Char) :=
  match s with
  | [] => none
  | '<' :: '!' :: '-' :: '-' :: s => (afterComment? s).map ([], ·)
  | '<' :: '!' :: '[' :: 'C' :: 'D' :: 'A' :: 'T' :: 'A' :: '[' :: s => literal? s
  | '<' :: '?' :: s => (instruction? s).map ([], ·)
  | '<' :: '/' :: s => (endTag? s).map fun (t, rest) => ([t], rest)
  | '<' :: s => (startTag? s).map fun (t, rest) => ([t], rest)
  | '&' :: s => (reference? s).map fun (p, rest) => ([ofPiece p], rest)
  | ']' :: ']' :: '>' :: _ => none
  | c :: s => if isMarkupChar c then some ([.char c], s) else none

theorem startTag?_length {s rest : List Char} {t : Token}
    (h : startTag? s = some (t, rest)) : rest.length < s.length := by
  simp only [startTag?] at h
  split at h
  · rename_i hq
    obtain ⟨⟨_, r⟩, hr, he⟩ := Option.map_eq_some_iff.1 h
    simp only [Prod.mk.injEq] at he
    have h₁ := qname?_length hq
    have h₂ := attributes?_length hr
    rw [← he.2]; omega
  · simp at h

theorem endTag?_length {s rest : List Char} {t : Token}
    (h : endTag? s = some (t, rest)) : rest.length < s.length := by
  simp only [endTag?] at h
  split at h
  · rename_i s' hq
    split at h
    · rename_i r hr
      have h₁ := qname?_length hq
      have h₂ := (List.dropWhile_suffix isSpace (l := s')).length_le
      simp only [hr, List.length_cons] at h₂
      simp only [Option.some.injEq, Prod.mk.injEq] at h
      rw [← h.2]; omega
    · simp at h
  · simp at h

theorem afterComment?_length {s rest : List Char} (h : afterComment? s = some rest) :
    rest.length < s.length := by
  fun_induction afterComment? s with
  | case1 s => simp only [Option.some.injEq] at h; simp only [← h, List.length_cons]; omega
  | case2 => simp at h
  | case3 c s _ _ _ ih => have := ih h; simp only [List.length_cons]; omega
  | case4 => simp at h
  | case5 => simp at h

theorem afterInstruction?_length {s rest : List Char} (h : afterInstruction? s = some rest) :
    rest.length < s.length := by
  fun_induction afterInstruction? s with
  | case1 s => simp only [Option.some.injEq] at h; simp only [← h, List.length_cons]; omega
  | case2 c s _ _ ih => have := ih h; simp only [List.length_cons]; omega
  | case3 => simp at h
  | case4 => simp at h

theorem instruction?_length {s rest : List Char} (h : instruction? s = some rest) :
    rest.length < s.length := by
  simp only [instruction?] at h
  split at h
  · rename_i target r hl
    have h₁ := label?_length hl
    split at h
    · simp at h
    · split at h
      · simp only [Option.some.injEq] at h
        simp only [List.length_cons] at h₁
        rw [← h]; omega
      · split at h
        · have := afterInstruction?_length h
          simp only [List.length_cons] at h₁
          omega
        · simp at h
      · simp at h
  · simp at h

theorem literal?_length {s rest : List Char} {ts : List Token}
    (h : literal? s = some (ts, rest)) : rest.length < s.length := by
  fun_induction literal? s generalizing ts with
  | case1 s =>
    simp only [Option.some.injEq, Prod.mk.injEq] at h
    simp only [← h.2, List.length_cons]; omega
  | case2 c s _ _ ih =>
    obtain ⟨⟨ts', r⟩, hr, he⟩ := Option.map_eq_some_iff.1 h
    simp only [Prod.mk.injEq] at he
    have := ih (he.2 ▸ hr)
    simp only [List.length_cons]; omega
  | case3 => simp at h
  | case4 => simp at h

theorem item?_length {s rest : List Char} {ts : List Token}
    (h : item? s = some (ts, rest)) : rest.length < s.length := by
  simp only [item?] at h
  split at h
  · simp at h
  · obtain ⟨r, hr, he⟩ := Option.map_eq_some_iff.1 h
    have := afterComment?_length hr
    simp only [Prod.mk.injEq] at he
    simp only [List.length_cons, ← he.2]; omega
  · have := literal?_length h
    simp only [List.length_cons]; omega
  · obtain ⟨r, hr, he⟩ := Option.map_eq_some_iff.1 h
    have := instruction?_length hr
    simp only [Prod.mk.injEq] at he
    simp only [List.length_cons, ← he.2]; omega
  · obtain ⟨⟨t, r⟩, hr, he⟩ := Option.map_eq_some_iff.1 h
    have := endTag?_length hr
    simp only [Prod.mk.injEq] at he
    simp only [List.length_cons, ← he.2]; omega
  · obtain ⟨⟨t, r⟩, hr, he⟩ := Option.map_eq_some_iff.1 h
    have := startTag?_length hr
    simp only [Prod.mk.injEq] at he
    simp only [List.length_cons, ← he.2]; omega
  · obtain ⟨⟨t, r⟩, hr, he⟩ := Option.map_eq_some_iff.1 h
    have := reference?_length hr
    simp only [Prod.mk.injEq] at he
    simp only [List.length_cons, ← he.2]; omega
  · simp at h
  · split at h
    · simp only [Option.some.injEq, Prod.mk.injEq] at h
      simp [← h.2]
    · simp at h

/-- The tokens of content that ends with the text. -/
def tokens? (s : List Char) : Option (List Token) :=
  match s with
  | [] => some []
  | c :: s =>
    match _h : item? (c :: s) with
    | some (ts, rest) => (tokens? rest).map (ts ++ ·)
    | none => none
termination_by s.length
decreasing_by exact item?_length _h

/-- How many elements are open after a token, where `depth` were open before it. -/
def depthAfter (depth : Nat) : Token → Nat
  | .start _ _ false => depth + 1
  | .stop _ => depth - 1
  | _ => depth

/-- The tokens of one element, where `depth` elements are open, and what follows it. -/
def elementTokens? (depth : Nat) (s : List Char) : Option (List Token × List Char) :=
  match _h : item? s with
  | some (ts, rest) =>
    if ts.foldl depthAfter depth = 0 then some (ts, rest)
    else (elementTokens? (ts.foldl depthAfter depth) rest).map fun (more, rest) => (ts ++ more, rest)
  | none => none
termination_by s.length
decreasing_by exact item?_length _h

end SvgForm.Xml
