/-! # Texts as lists of characters

The rules of this library are written over `List Char`; a `String` is opened with `toList`, worked on,
and closed again. Here stand the operations that the rules share.
-/

namespace SvgForm.Text

/-- Works on the characters of a string. -/
def onChars (f : List Char → List Char) (s : String) : String :=
  .ofList (f s.toList)

/-- Whether the character lies in one of the ranges of code points (both ends belong to a range). -/
def inRanges (ranges : List (Nat × Nat)) (c : Char) : Bool :=
  ranges.any fun r => r.1 ≤ c.toNat && c.toNat ≤ r.2

/-- What follows `head` in a text that starts with it. -/
def after? : (head text : List Char) → Option (List Char)
  | [], text => some text
  | _ :: _, [] => none
  | h :: head, c :: text => if h = c then after? head text else none

/-- Whether a text starts with `head`. -/
def startsWith (head text : List Char) : Bool :=
  (after? head text).isSome

/-- The text around the first occurrence of `mark`. -/
def cutAt? (mark : List Char) : (text : List Char) → Option (List Char × List Char)
  | [] => if mark = [] then some ([], []) else none
  | c :: text =>
    match after? mark (c :: text) with
    | some rest => some ([], rest)
    | none => (cutAt? mark text).map fun (before, rest) => (c :: before, rest)

/-- The text around the first character `mark`. -/
def cutAtChar? (mark : Char) : (text : List Char) → Option (List Char × List Char)
  | [] => none
  | c :: text =>
    if c = mark then some ([], text)
    else (cutAtChar? mark text).map fun (before, rest) => (c :: before, rest)

/-- The text before the first character `mark`; the whole text without one. -/
def beforeChar (mark : Char) (text : List Char) : List Char :=
  text.takeWhile (· != mark)

/-- The text with every character `c` written as `d`. -/
def replaceChar (c d : Char) (text : List Char) : List Char :=
  text.map fun x => if x = c then d else x

/-- The text without its last character when that is a newline.

A pattern that must reach the end of a text may stop before a final newline. -/
def dropNewlineAtEnd : List Char → List Char
  | [] => []
  | ['\n'] => []
  | c :: text => c :: dropNewlineAtEnd text

/-- What precedes `tail` in a text that ends with it. -/
def before? (tail text : List Char) : Option (List Char) :=
  (after? tail.reverse text.reverse).map List.reverse

/-- The characters at the end of a text that do not satisfy `p` removed while they do. -/
def dropEndWhile (p : Char → Bool) : List Char → List Char
  | [] => []
  | c :: text =>
    match dropEndWhile p text with
    | [] => if p c then [] else [c]
    | kept => c :: kept

/-- A text repeated. -/
def repeated (text : List Char) : Nat → List Char
  | 0 => []
  | n + 1 => text ++ repeated text n

/-- The first `n` characters of `text` repeated without end. -/
def cycled (text : List Char) (n : Nat) : List Char :=
  (repeated text ((n + text.length - 1) / text.length)).take n

theorem after?_length {head text rest : List Char} (h : after? head text = some rest) :
    text.length = head.length + rest.length := by
  induction head generalizing text with
  | nil => simp [after?] at h; simp [h]
  | cons a head ih =>
    cases text with
    | nil => simp [after?] at h
    | cons b text =>
      simp only [after?] at h
      split at h
      · have := ih h
        simp only [List.length_cons]; omega
      · simp at h

theorem cutAtChar?_length {mark : Char} {text before rest : List Char}
    (h : cutAtChar? mark text = some (before, rest)) : rest.length < text.length := by
  induction text generalizing before with
  | nil => simp [cutAtChar?] at h
  | cons c text ih =>
    simp only [cutAtChar?] at h
    split at h
    · simp only [Option.some.injEq, Prod.mk.injEq] at h
      simp [h.2]
    · obtain ⟨⟨before', rest'⟩, hr, he⟩ := Option.map_eq_some_iff.1 h
      simp only [Prod.mk.injEq] at he
      have := ih (he.2 ▸ hr)
      simp only [List.length_cons]; omega

end SvgForm.Text
