import SvgForm.Kind
import SvgForm.Text.Blank
import SvgForm.Text.Digit
/-! # Identifiers

An element's identifier describes a field: a base, then tokens, each after a point. A generation rule and
a tracking link may hold points and brackets of their own; each runs up to the next reserved extension and
is cut out before the rest is parted into tokens. Tokens that mean nothing are ignored.
-/

namespace SvgForm

/-- What an identifier says about its field. -/
structure Identifier where
  base : String
  tokens : List String := []
  kind : Option Kind := none
  maxLength : Option Nat := none
  minLength : Option Nat := none
  generationRule : Option String := none
  generationMode : Option String := none
  dependsOn : Option String := none
  dateFormat : Option String := none
  editable : Bool := true
  selectValue : Option String := none
  hiddenWhen : Option String := none
  trackingId : Bool := false
  trackingLink : Option String := none
  trackingRole : Option String := none
  grayscale : Bool := false
  deriving DecidableEq

/-- A number has more digits than are allowed. -/
structure TooManyDigits where
  limit : Nat
  count : Nat

/-- The wording of the error. -/
def TooManyDigits.message (e : TooManyDigits) : String :=
  "Exceeds the limit (" ++ .ofList (Text.natDigits e.limit) ++
    " digits) for integer string conversion: value has " ++ .ofList (Text.natDigits e.count) ++
    " digits; use sys.set_int_max_str_digits() to increase the limit"

namespace Identifier

/-- Whether the identifier says more than its base. -/
def hasExtensions (i : Identifier) : Bool :=
  !i.tokens.isEmpty || i.generationRule.isSome || i.trackingLink.isSome

/-- The extensions before which a rule or a link ends. -/
def reservedExtensions : List String :=
  ["max_", "min_", "editable", "track", "link", "date_format", "mode", "hide_", "grayscale", "select_",
    "depends_", "tracking_id", "text", "email", "number", "checkbox", "gen_", "date"]

/-- Whether a text starts with a point and one of the extensions. -/
def startsExtension (reserved : List (List Char)) (text : List Char) : Bool :=
  reserved.any fun name => Text.startsWith ('.' :: name) text

/-- A text parted before the first point with one of the extensions after it. -/
def cutRule (reserved : List (List Char)) : List Char → List Char × List Char
  | [] => ([], [])
  | c :: text =>
    if startsExtension reserved (c :: text) then ([], c :: text)
    else
      let (rule, rest) := cutRule reserved text
      (c :: rule, rest)

/-- Where the first point with one of the extensions after it stands; the length of the text if nowhere. -/
def ruleEnd (text : String) (reserved : List String) : Nat :=
  (cutRule (reserved.map (·.toList)) text.toList).1.length

/-- The text of the first span with a name, which goes up to the next reserved extension, and the text
without that span. -/
def cutSpan (name text : List Char) : Option (List Char) × List Char :=
  match Text.cutAt? ('.' :: name) text with
  | none => (none, text)
  | some (before, after) =>
    let (value, rest) := cutRule (reservedExtensions.map (·.toList)) after
    (some value, before ++ rest)

/-- The pieces between the points outside brackets, where `depth` brackets are open. Closing brackets
without a partner do not count. -/
def pieces : (depth : Nat) → List Char → List (List Char)
  | _, [] => [[]]
  | depth, c :: text =>
    let inner := if c = '[' then depth + 1 else if c = ']' then depth - 1 else depth
    if c = '.' ∧ inner = 0 then [] :: pieces inner text
    else (pieces inner text).modifyHead (c :: ·)

/-- The tokens of a text: its pieces that are not empty. -/
def splitTokens (text : List Char) : List (List Char) :=
  (pieces 0 text).filter (· ≠ [])

/-- The kinds that tokens name; two of them have another name too. -/
def kindTokens : List (String × Kind) :=
  [("text", .text), ("textarea", .textarea), ("checkbox", .checkbox), ("date", .date),
    ("upload", .upload), ("number", .number), ("email", .email), ("tel", .tel), ("url", .url),
    ("password", .password), ("range", .range), ("color", .color), ("file", .file), ("gen", .text),
    ("sign", .upload)]

/-- The number after a word, up to the end of the token or a final newline. -/
def bound? (word : String) (token : List Char) : Option Nat :=
  (Text.after? word.toList token).bind fun rest => Text.readNat? (Text.dropNewlineAtEnd rest)

/-- The text in brackets after a word, up to the end of the token or a final newline. -/
def bracketed? (word : String) (token : List Char) : Option (List Char) :=
  (Text.after? (word.toList ++ ['[']) token).bind fun rest =>
    Text.before? [']'] (Text.dropNewlineAtEnd rest)

/-- The mode in brackets, which holds no closing one. -/
def mode? (token : List Char) : Option (List Char) :=
  (bracketed? "mode" token).filter (']' ∉ ·)

/-- The date format in brackets, which holds no newline. -/
def dateFormat? (token : List Char) : Option (List Char) :=
  (bracketed? "date_format" token).filter ('\n' ∉ ·)

/-- A text that says something only if it is not empty. -/
def unlessEmpty (text : List Char) : Option String :=
  if text = [] then none else some (.ofList text)

/-- What a token adds to an identifier. The first kind counts, and the last of anything else. -/
def addToken (i : Identifier) (token : List Char) : Identifier :=
  match kindTokens.lookup (.ofList token) with
  | some kind => { i with kind := i.kind.or (some kind) }
  | none =>
  match bound? "max_" token with
  | some n => { i with maxLength := some n }
  | none =>
  match bound? "min_" token with
  | some n => { i with minLength := some n }
  | none =>
  match mode? token with
  | some mode => { i with generationMode := unlessEmpty mode }
  | none =>
  match dateFormat? token with
  | some format => { i with dateFormat := unlessEmpty format, kind := i.kind.or (some .date) }
  | none =>
  match Text.after? "depends_".toList token with
  | some name => { i with dependsOn := unlessEmpty name }
  | none =>
  match Text.after? "select_".toList token with
  | some value => { i with selectValue := some (.ofList value) }
  | none =>
    if token = "editable_false".toList then { i with editable := false }
    else if token = "hide_checked".toList then { i with hiddenWhen := some "checked" }
    else if token = "hide_unchecked".toList then { i with hiddenWhen := some "unchecked" }
    else if token = "tracking_id".toList then { i with trackingId := true }
    else if token = "grayscale".toList then { i with grayscale := true }
    else
      match Text.after? "track_".toList token with
      | some role => { i with trackingRole := unlessEmpty role }
      | none => i

/-- Reads an identifier. -/
def parse (identifier : String) : Identifier :=
  match Text.cutAtChar? '.' identifier.toList with
  | none => { base := identifier }
  | some (base, []) => { base := .ofList base }
  | some (base, rest) =>
    let (rule, rest) := cutSpan "gen_".toList ('.' :: rest)
    let (link, rest) := cutSpan "link_".toList rest
    let tokens := splitTokens rest
    tokens.foldl addToken
      { base := .ofList base
        tokens := tokens.map .ofList
        generationRule := rule.map .ofList
        trackingLink := link.map .ofList }

/-! ## Long numbers

How many digits a number may have that is read from a text, is a setting.
-/

/-- The setting that holds where nothing else is said. -/
def digitLimit : Option Nat := some 4300

/-- The digits of a bound, up to the end of the token or a final newline. -/
def boundDigits? (token : List Char) : Option (List Char) :=
  let rest := (Text.after? "max_".toList token).or (Text.after? "min_".toList token)
  (rest.map Text.dropNewlineAtEnd).filter fun digits => digits ≠ [] ∧ digits.all Text.isDigit

/-- How many digits the first bound has that has more than are allowed. -/
def excess? (limit : Option Nat) (i : Identifier) : Option TooManyDigits :=
  limit.bind fun limit => i.tokens.findSome? fun token =>
    (boundDigits? token.toList).bind fun digits =>
      if limit < digits.length then some { limit, count := digits.length } else none

/-- A base as people read it. -/
def humanize (base : List Char) : List Char :=
  Text.trim (Text.replaceChar '_' ' ' base)

end Identifier

end SvgForm
