import SvgForm.Text.Blank
import SvgForm.Value
/-! # References

A reference names a field whose value is wanted, and may ask for a part of it: `Name[w2]` is the second
word of the value, `Name[ch3]` its third character, `Name[ch1-4]` a range and `Name[ch1,2,5]` a choice of
characters. Image data and image addresses are never taken apart by a field that depends on them.
-/

namespace SvgForm

/-- The values of fields by id. -/
abbrev KnownValues := List (String × Value)

/-- What is taken from a value. -/
inductive Part
  | word
  | chars
  deriving DecidableEq

def Part.name : Part → String
  | .word => "w"
  | .chars => "ch"

def Part.ofName? : String → Option Part
  | "w" => some .word
  | "ch" => some .chars
  | _ => none

structure Reference where
  name : List Char
  /-- The part that is wanted, with the pattern that says which. -/
  part : Option (Part × List Char)

namespace Reference

/-- Reads what part is wanted, from a text that goes on after an opening bracket. -/
def part? (text : List Char) : Option (Part × List Char) :=
  let closed (part : Part) (rest : List Char) : Option (Part × List Char) :=
    ((Text.before? [']'] (Text.dropNewlineAtEnd rest)).filter
      fun pattern => pattern ≠ [] ∧ '\n' ∉ pattern).map (part, ·)
  match text with
  | 'w' :: rest => closed .word rest
  | 'c' :: 'h' :: rest => closed .chars rest
  | _ => none

/-- Parts a text at the first bracket that asks for a part; the name before it is not empty and holds no
newline. -/
def cutPart? (named : Bool) : List Char → Option (List Char × (Part × List Char))
  | [] => none
  | c :: text =>
    match if named ∧ c = '[' then part? text else none with
    | some part => some ([], part)
    | none =>
      if c = '\n' then none
      else (cutPart? true text).map fun (name, part) => (c :: name, part)

/-- Reads a reference. A text that asks for no part is a name. -/
def parse (text : List Char) : Reference :=
  match cutPart? false text with
  | some (name, part) => { name, part := some part }
  | none => { name := text, part := none }

/-- The name in a reference, which ends at the first bracket. -/
def baseName (text : List Char) : List Char :=
  Text.beforeChar '[' text

/-- The word whose number stands in the pattern. -/
def wordOf (text pattern : List Char) : List Char :=
  match Text.firstInt? pattern with
  | some n => if 1 ≤ n then (Text.words text)[n.toNat - 1]?.getD [] else []
  | none => []

/-- The character whose number stands in the pattern. -/
def charOf (text pattern : List Char) : List Char :=
  match Text.firstInt? pattern with
  | some n => if 1 ≤ n then text[n.toNat - 1]?.toList else []
  | none => []

/-- The characters from number `first` to number `last`. -/
def charRange (text : List Char) (first last : Int) : List Char :=
  (text.take (max last 0).toNat).drop ((max first 1).toNat - 1)

/-- The characters that a pattern chooses: some by number, a range, or one. -/
def charsOf (text pattern : List Char) : List Char :=
  if ',' ∈ pattern then (pattern.splitOn ',').flatMap (charOf text)
  else
    match Text.cutAtChar? '-' pattern with
    | some (first, last) =>
      match Text.firstInt? first, Text.firstInt? last with
      | some first, some last => charRange text first last
      | _, _ => []
    | none => charOf text pattern

/-- What is wanted of a text. -/
def extract (part : Option (Part × List Char)) (text : List Char) : List Char :=
  match part with
  | none => text
  | some (.word, pattern) => wordOf text pattern
  | some (.chars, pattern) => charsOf text pattern

/-- The value that a field which depends on a reference gets. The name counts if it is the id of a field,
and otherwise what stands before the first bracket. -/
def resolveDependency (known : KnownValues) (reference : String) : String :=
  let r := parse reference.toList
  let value :=
    match known.lookup (String.ofList r.name) with
    | some value => value
    | none => (known.lookup (String.ofList (baseName reference.toList))).getD .null
  if value.isImageReference then value.display
  else String.ofList (extract r.part value.display.toList)

/-- The value that a reference in a rule stands for. A name that starts with `dep_` may leave that out. -/
def resolve (known : KnownValues) (reference : List Char) : List Char :=
  let r := parse reference
  let names := r.name :: (Text.after? "dep_".toList r.name).toList
  let value := names.findSome? fun name =>
    match known.lookup (String.ofList name) with
    | none | some .null => none
    | some value => some value
  match value with
  | some value => extract r.part value.display.toList
  | none => []

end Reference

end SvgForm
