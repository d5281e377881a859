import SvgForm.Xml.Entity
/-! # Document type declarations

What may stand between a document's start and its root: a declaration of the version, and of the document
type with entities, attributes, content models and notations. All of it is checked for its form; only
entities and attributes matter to the document.
-/

namespace SvgForm.Xml

/-- Reads from the start of a text and leaves the rest, or fails. -/
abbrev Reader := StateT (List Char) Option

namespace Reader

/-- Succeeds without reading if the condition holds. -/
def check (condition : Bool) : Reader Unit :=
  if condition then pure () else failure

/-- Reads exactly these characters. -/
def exactly (word : String) : Reader Unit := fun s =>
  (Text.after? word.toList s).map ((), ·)

/-- Reads these characters if they come next, and says whether they did. -/
def next (word : String) : Reader Bool := fun s =>
  match Text.after? word.toList s with
  | some rest => some (true, rest)
  | none => some (false, s)

/-- Reads white space, if there is any. -/
def spaces : Reader Unit := fun s => some ((), s.dropWhile isSpace)

/-- Reads white space, and says whether there was any. -/
def spaced : Reader Bool := fun s =>
  some (s.head?.any isSpace, s.dropWhile isSpace)

/-- Reads white space, of which there must be some. -/
def gap : Reader Unit := do check (← spaced)

def label : Reader (List Char) := label?

/-- Reads the name of an element or an attribute. A declaration does not ask what a label behind a short
form starts with. -/
def declaredName : Reader QName := do
  let first ← label
  if ← next ":" then
    let second ← fun s => some (s.takeWhile isNameChar, s.dropWhile isNameChar)
    check (second ≠ [])
    pure ⟨some first, second⟩
  else pure ⟨none, first⟩

/-- Reads characters of names, at least one. -/
def nameToken : Reader Unit := fun s =>
  let inside (c : Char) := isNameChar c || c = ':'
  if s.head?.any inside then some ((), s.dropWhile inside) else none

/-- Reads a quoted text of characters that markup may hold. -/
def quoted : Reader (List Char) := do
  let text ← enquoted?
  check (text.all isMarkupChar)
  pure text

/-- The characters that a public identifier may hold. -/
def isPublicChar (c : Char) : Bool :=
  c.isAlphanum || "-'()+,./:=?;!*#@$_% \n\r".toList.contains c

def publicQuoted : Reader Unit := do check ((← quoted).all isPublicChar)

/-- Reads items, at most as many as the text is long, until one says that it was the last. -/
def untilDone {σ : Type} (item : σ → Reader (σ × Bool)) (state : σ) : Reader σ := do
  go (← get).length state
where
  go : Nat → σ → Reader σ
    | 0, _ => failure
    | fuel + 1, state => do
      let (state, done) ← item state
      if done then pure state else go fuel state

end Reader

open Reader

/-! ## Entities -/

/-- What is kept of a reference that starts after an ampersand: the character if it is numbered, and
otherwise the reference itself. -/
def keptReference (p : Piece) (s rest : List Char) : List Char :=
  match p with
  | .char c => if s.head? = some '#' then [c] else '&' :: s.take (s.length - rest.length)
  | .entity _ => '&' :: s.take (s.length - rest.length)

/-- The text of a declared entity: numbered references are replaced, others are kept for later, and
references to other declarations are refused. -/
def entityText? (s : List Char) : Option (List Char) :=
  match s with
  | [] => some []
  | c :: s =>
    if c = '%' then none
    else if c = '&' then
      match _h : reference? s with
      | some (p, rest) => (entityText? rest).map (keptReference p s rest ++ ·)
      | none => none
    else (entityText? s).map (c :: ·)
termination_by s.length
decreasing_by
  · have := reference?_length _h
    simp only [List.length_cons]; omega
  · simp

/-- Reads where something declared elsewhere stands, after the word that starts it. -/
def external (word : String) : Reader Unit := do
  if word = "PUBLIC" then
    gap; publicQuoted
  gap; discard quoted

/-- Reads the word that starts such a place, if there is one. -/
def externalWord : Reader (Option String) := do
  if ← next "SYSTEM" then pure (some "SYSTEM")
  else if ← next "PUBLIC" then pure (some "PUBLIC")
  else pure none

def Declarations.addEntity (d : Declarations) (name : List Char) (text : Option (List Char)) :
    Declarations :=
  if d.active ∧ builtinEntities.lookup name = none then
    { d with entities := d.entities ++ [(name, text)] }
  else d

/-- Reads the declaration of an entity; one for declarations themselves is checked and not kept. -/
def entityDecl (d : Declarations) : Reader Declarations := do
  gap
  let parameter ← next "%"
  if parameter then gap
  let name ← label
  gap
  match ← externalWord with
  | some word =>
    external word
    let wide ← spaced
    if wide && !parameter then
      if ← next "NDATA" then
        gap; discard label; spaces
    exactly ">"
    pure (if parameter then d else d.addEntity name none)
  | none =>
    let value ← quoted
    spaces; exactly ">"
    if d.active then
      let text ← liftM (entityText? value)
      pure (if parameter then d else d.addEntity name (some text))
    else pure d

/-! ## Attributes -/

/-- Reads alternatives and the parenthesis that closes them. -/
def alternatives (one : Reader Unit) : Reader Unit :=
  untilDone (fun _ => do
    spaces; one; spaces
    if ← next "|" then pure ((), false)
    else exactly ")"; pure ((), true)) ()

/-- Reads the type of an attribute, and says whether spaces in it collapse. -/
def attributeType : Reader Bool := do
  if ← next "(" then
    alternatives nameToken
    pure true
  else
    let word := String.ofList (← label)
    if word = "NOTATION" then
      gap; exactly "("; alternatives (discard label)
      pure true
    else if word = "CDATA" then pure false
    else
      check (["ID", "IDREF", "IDREFS", "ENTITY", "ENTITIES", "NMTOKEN", "NMTOKENS"].contains word)
      pure true

def Declarations.addAttribute (d : Declarations) (a : AttributeDecl) : Declarations :=
  if d.active ∧ d.attributes.all (fun b => b.element ≠ a.element ∨ b.name ≠ a.name) then
    { d with attributes := d.attributes ++ [a] }
  else d

/-- The declared default value, and the declarations with room taken for it. -/
def Declarations.default? (d : Declarations) (collapsed : Bool) (s : List Char) :
    Option (List Char × Declarations) := do
  let pieces ← valuePieces? s
  let d ← d.take? (pieces.filterMap Piece.entity?)
  let value ← d.value? pieces
  pure (if collapsed then collapseSpaces value else value, d)

/-- Reads the declaration of an element's attributes. -/
def attributesDecl (d : Declarations) : Reader Declarations := do
  gap
  let element ← declaredName
  untilDone (fun d => do
    let wide ← spaced
    if ← next ">" then pure (d, true)
    else
      check wide
      let name ← declaredName
      gap
      let collapsed ← attributeType
      gap
      if ← next "#REQUIRED" then pure (d.addAttribute ⟨element, name, collapsed, none⟩, false)
      else if ← next "#IMPLIED" then pure (d.addAttribute ⟨element, name, collapsed, none⟩, false)
      else
        if ← next "#FIXED" then gap
        let value ← quoted
        if d.active then
          let (value, d) ← liftM (d.default? collapsed value)
          pure (d.addAttribute ⟨element, name, collapsed, some value⟩, false)
        else pure (d, false)) d

/-! ## Content models and notations -/

/-- Reads a mark of repetition, if there is one. -/
def repetition : Reader Unit := do
  if !(← next "?") then
    if !(← next "*") then discard (next "+")

/-- Reads a content model after its first parenthesis. The separators of the open groups stand in
`groups`, the innermost first, each once it is known. -/
def contentModel : Reader Unit := do
  spaces
  if ← next "#PCDATA" then
    let named ← untilDone (fun named => do
      spaces
      if ← next "|" then
        spaces; discard declaredName
        pure (true, false)
      else exactly ")"; pure (named, true)) false
    let star ← next "*"
    check (star || !named)
  else
    discard <| untilDone (σ := List (Option Char) × Bool) (fun (groups, expectItem) => do
      spaces
      if expectItem then
        if ← next "(" then pure ((none :: groups, true), false)
        else
          discard declaredName; repetition
          pure ((groups, false), false)
      else
        match groups with
        | [] => failure
        | separator :: outer =>
          if ← next ")" then
            repetition
            pure ((outer, false), outer.isEmpty)
          else
            let found ← if ← next "|" then pure '|' else do exactly ","; pure ','
            check (separator = none || separator = some found)
            pure ((some found :: outer, true), false)) ([none], true)

/-- Reads the declaration of an element's content. -/
def elementDecl : Reader Unit := do
  gap; discard declaredName; gap
  if ← next "(" then contentModel
  else
    let word := String.ofList (← label)
    check (word = "EMPTY" || word = "ANY")
  spaces; exactly ">"

/-- Reads the declaration of a notation. -/
def notationDecl : Reader Unit := do
  gap; discard label; gap
  match ← externalWord with
  | some "SYSTEM" => gap; discard quoted; spaces; exactly ">"
  | some _ =>
    gap; publicQuoted
    let wide ← spaced
    if !(← next ">") then
      check wide
      discard quoted; spaces; exactly ">"
  | none => failure

/-! ## The document type -/

/-- Reads declarations up to the bracket that closes them. -/
def internalDecls (d : Declarations) : Reader Declarations :=
  untilDone (fun d => do
    spaces
    if ← next "]" then pure (d, true)
    else if ← next "<!--" then do
      modifyGet? afterComment?
      pure (d, false)
    else if ← next "<?" then do
      modifyGet? instruction?
      pure (d, false)
    else if ← next "<!ENTITY" then pure (← entityDecl d, false)
    else if ← next "<!ATTLIST" then pure (← attributesDecl d, false)
    else if ← next "<!ELEMENT" then elementDecl; pure (d, false)
    else if ← next "<!NOTATION" then notationDecl; pure (d, false)
    else
      exactly "%"; discard label; exactly ";"
      pure ({ d with partly := true, active := d.standalone }, false)) d
where
  modifyGet? (f : List Char → Option (List Char)) : Reader Unit := fun s => (f s).map ((), ·)

/-- Reads a document type declaration, of which the first word is read already. -/
def doctype (d : Declarations) : Reader Declarations := do
  gap; discard declaredName
  let wide ← spaced
  let outside ← if wide then externalWord else pure none
  let d ← match outside with
    | some word => do
      external word; spaces
      pure { d with partly := true }
    | none => pure d
  let d ← if ← next "[" then do
      let d ← internalDecls d
      spaces
      pure d
    else pure d
  exactly ">"
  pure d

/-! ## The version -/

/-- Reads a pseudo attribute: a word, an equals sign and a quoted value of plain characters. -/
def pseudoAttribute (word : String) : Reader (List Char) := do
  exactly word
  spaces; exactly "="; spaces
  let value ← quoted
  check (value.all fun c => c.isAlphanum || c = '.' || c = '-' || c = '_')
  pure value

/-- Reads the declaration of the version, of which the start is read already, and says whether the
document stands alone. -/
def versionDecl : Reader Bool := do
  gap
  discard (pseudoAttribute "version")
  let wide ← spaced
  let encoded ← startsNext "encoding"
  let wide ← if wide && encoded then do
      let name ← pseudoAttribute "encoding"
      check (name.head?.any Char.isAlpha)
      spaced
    else pure wide
  let named ← startsNext "standalone"
  if wide && named then
    let value := String.ofList (← pseudoAttribute "standalone")
    check (value = "yes" || value = "no")
    spaces; exactly "?>"
    pure (value = "yes")
  else
    exactly "?>"
    pure false
where
  startsNext (word : String) : Reader Bool := fun s =>
    some (Text.startsWith word.toList s, s)

end SvgForm.Xml
