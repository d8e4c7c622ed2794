import SourceLoom.Yaml.Token

/-!
# YAML: from a text to its tokens

Outside brackets the indentation of a line says which collections it belongs to: an entry further
in than the current collection begins a new one, and a line further out ends those that it leaves.
A key is known as such only by the colon after it, so every token that a key may begin with is kept
in mind until the colon comes, for at most one line and a certain number of characters; then the
tokens that announce the key are put before it.
-/

namespace SourceLoom.Yaml

/-- A token that may begin a key. -/
structure KeyStart where
  /-- The number of tokens before it. -/
  token : Nat
  /-- Whether it has to begin a key, because it stands where only keys stand. -/
  isRequired : Bool
  /-- The number of characters before it. -/
  index : Nat
  /-- Its line. -/
  line : Nat
  /-- Its column. -/
  column : Nat
  deriving DecidableEq, Repr

/-- A colon may be at most so many characters after the beginning of its key. -/
def keyLimit : Nat := 1024

/-- What is known while a text is cut into tokens. -/
structure Layout where
  /-- The place in the text. -/
  place : Place
  /-- The tokens so far. -/
  tokens : Array Token := #[]
  /-- The number of open brackets. -/
  brackets : Nat := 0
  /-- The column of the current collection; without one it is before the first column. -/
  indent : Int := -1
  /-- The columns of the collections around it, nearest first. -/
  outer : List Int := []
  /-- Whether a key may begin here. -/
  mayBeginKey : Bool := true
  /-- The tokens that may begin keys, by the number of brackets around them. -/
  keyStarts : List (Nat × KeyStart) := []

/-- A step of cutting a text into tokens. -/
abbrev Cutting := StateT Layout (Except Fault)

namespace Cutting

/-- Reads a part of the text. -/
def scan {α : Type} (step : Scanning α) : Cutting α := do
  let layout ← get
  let (a, place) ← step.run layout.place
  set { layout with place }
  return a

/-- Adds a token. -/
def emit (token : Token) : Cutting Unit :=
  modify fun layout => { layout with tokens := layout.tokens.push token }

/-- Passes so many characters and adds the token they make. -/
def pass (count : Nat) (token : Token) : Cutting Unit := do
  scan (Scanning.skip count)
  emit token

/-- Says whether a key may begin at the next token. -/
def allowKey (allowed : Bool) : Cutting Unit :=
  modify ({ · with mayBeginKey := allowed })

/-- Passes spaces, comments and line ends, at most so many. -/
def skipSpace : (limit : Nat) → Cutting Unit
  | 0 => pure ()
  | limit + 1 => do
    scan (Scanning.skipWhile (· = ' '))
    scan Scanning.skipComment
    if (← scan Scanning.takeBreak) ≠ [] then
      if (← get).brackets = 0 then allowKey true
      skipSpace limit

/-- Passes everything before the next token. A mark of byte order may begin the text. -/
def skipToToken : Cutting Unit := do
  let place := (← get).place
  if place.index = 0 ∧ place.rest.head?.any (·.toNat = 0xFEFF) then scan (Scanning.skip 1)
  skipSpace (place.rest.length + 1)

/-- Forgets the tokens too far back to begin a key. -/
def forgetStale : Cutting Unit := do
  let layout ← get
  let isStale (start : KeyStart) : Bool :=
    start.line ≠ layout.place.line || keyLimit < layout.place.index - start.index
  if layout.keyStarts.any fun (_, start) => isStale start && start.isRequired then
    throw .malformed
  set { layout with keyStarts := layout.keyStarts.filter fun (_, start) => !isStale start }

/-- Forgets the token that may begin a key inside the current brackets. -/
def forgetKey : Cutting Unit := do
  let layout ← get
  if (layout.keyStarts.lookup layout.brackets).any (·.isRequired) then throw .malformed
  set { layout with
    keyStarts := layout.keyStarts.filter fun (brackets, _) => brackets ≠ layout.brackets }

/-- Keeps in mind that the next token may begin a key. -/
def rememberKey : Cutting Unit := do
  if (← get).mayBeginKey then
    forgetKey
    modify fun layout =>
      let start : KeyStart :=
        { token := layout.tokens.size
          isRequired := layout.brackets = 0 && layout.indent = layout.place.column
          index := layout.place.index
          line := layout.place.line
          column := layout.place.column }
      { layout with keyStarts := (layout.brackets, start) :: layout.keyStarts }

/-- Ends the collections further in than a column. -/
def leave (column : Int) : (limit : Nat) → Cutting Unit
  | 0 => pure ()
  | limit + 1 => do
    let layout ← get
    if column < layout.indent then
      set { layout with
        tokens := layout.tokens.push .blockEnd
        indent := layout.outer.headD (-1)
        outer := layout.outer.drop 1 }
      leave column limit

/-- Ends the collections further in than a column, outside brackets. -/
def leaveTo (column : Int) : Cutting Unit := do
  if (← get).brackets = 0 then leave column ((← get).outer.length + 1)

/-- Begins a collection at a column, if that is further in than the current one; its token goes
before so many others. -/
def enter (column : Int) (start : Token) (position : Nat) : Cutting Unit := do
  let layout ← get
  if layout.indent < column then
    set { layout with
      tokens := layout.tokens.insertIdxIfInBounds position start
      indent := column
      outer := layout.indent :: layout.outer }

/-- Begins a collection at the next token, outside brackets, where it may begin. -/
def enterHere (start : Token) : Cutting Unit := do
  let layout ← get
  if layout.brackets = 0 then
    if !layout.mayBeginKey then throw .malformed
    enter layout.place.column start layout.tokens.size

/-- A line that separates documents, or a directive: nothing goes on across it. -/
def separate : Cutting Unit := do
  leaveTo (-1)
  forgetKey
  allowKey false

/-- An opening bracket. -/
def openBracket (token : Token) : Cutting Unit := do
  rememberKey
  modify fun layout => { layout with brackets := layout.brackets + 1, mayBeginKey := true }
  pass 1 token

/-- A closing bracket. -/
def closeBracket (token : Token) : Cutting Unit := do
  forgetKey
  let layout ← get
  if layout.brackets = 0 then throw .malformed
  set { layout with brackets := layout.brackets - 1, mayBeginKey := false }
  pass 1 token

/-- An entry of a list outside brackets. -/
def blockEntry : Cutting Unit := do
  enterHere .blockSequenceStart
  allowKey true
  forgetKey
  pass 1 .blockEntry

/-- A question mark before a key. -/
def markedKey : Cutting Unit := do
  enterHere .blockMappingStart
  allowKey ((← get).brackets = 0)
  forgetKey
  pass 1 .key

/-- A colon. If a key may have begun inside the current brackets, it has. -/
def colon : Cutting Unit := do
  let layout ← get
  match layout.keyStarts.lookup layout.brackets with
  | some start =>
    set { layout with
      tokens := layout.tokens.insertIdxIfInBounds start.token .key
      mayBeginKey := false
      keyStarts := layout.keyStarts.filter fun (brackets, _) => brackets ≠ layout.brackets }
    if layout.brackets = 0 then enter start.column .blockMappingStart start.token
  | none =>
    enterHere .blockMappingStart
    allowKey (layout.brackets = 0)
    forgetKey
  pass 1 .value

/-- A token that may begin a key. -/
def keyToken (read : Scanning Token) : Cutting Unit := do
  rememberKey
  allowKey false
  emit (← scan read)

/-- A block scalar. -/
def blockScalar (folds : Bool) : Cutting Unit := do
  allowKey true
  forgetKey
  let layout ← get
  scan (Scanning.skip 1)
  emit (.scalar (← scan (readBlock folds layout.indent (layout.place.rest.length + 1))) false)

/-- A scalar in quotes. -/
def quotedScalar (quote : Char) : Cutting Unit := do
  let limit := (← get).place.rest.length + 1
  keyToken do
    Scanning.skip 1
    return .scalar (← readQuoted quote limit) false

/-- A plain scalar. After one that ends with its line a key may begin. -/
def plainScalar : Cutting Unit := do
  rememberKey
  let layout ← get
  let (text, crossed) ←
    scan (readPlain (layout.brackets ≠ 0) layout.indent (layout.place.rest.length + 1) ⟨[], false⟩)
  allowKey crossed
  emit (.scalar text true)

/-- Whether a plain scalar may begin with a character before another one. -/
def mayBeginPlain (inFlow : Bool) (c : Char) (next : Option Char) : Bool :=
  if c = '-' then !isGap next
  else if c = '?' ∨ c = ':' then !inFlow && !isGap next
  else !(isGap (some c)) &&
    c ∉ [',', '[', ']', '\x7b', '\x7d', '#', '&', '*', '!', '|', '>', '\'', '"', '%', '@', '\x60']

/-- The next token and those that it announces. -/
def next (c : Char) : Cutting Unit := do
  let layout ← get
  let following := layout.place.rest[1]?
  let inFlow := layout.brackets ≠ 0
  let marksLine := layout.place.column = 0 && layout.place.atSeparator
  if c = '%' ∧ layout.place.column = 0 then
    separate
    emit (← scan readDirective)
  else if marksLine ∧ c = '-' then
    separate
    pass 3 .documentStart
  else if marksLine ∧ c = '.' then
    separate
    pass 3 .documentEnd
  else if c = '[' then openBracket .flowSequenceStart
  else if c = '\x7b' then openBracket .flowMappingStart
  else if c = ']' then closeBracket .flowSequenceEnd
  else if c = '\x7d' then closeBracket .flowMappingEnd
  else if c = ',' then
    allowKey true
    forgetKey
    pass 1 .flowEntry
  else if c = '-' ∧ isGap following then blockEntry
  else if c = '?' ∧ (inFlow ∨ isGap following) then markedKey
  else if c = ':' ∧ (inFlow ∨ isGap following) then colon
  else if c = '*' then keyToken (return .alias (← readAnchorName))
  else if c = '&' then keyToken (return .anchor (← readAnchorName))
  else if c = '!' then keyToken readTag
  else if c = '|' ∧ !inFlow then blockScalar false
  else if c = '>' ∧ !inFlow then blockScalar true
  else if c = '\'' ∨ c = '"' then quotedScalar c
  else if mayBeginPlain inFlow c following then plainScalar
  else throw .malformed

/-- All tokens of the rest of the text, at most so many steps. -/
def all : (limit : Nat) → Cutting Unit
  | 0 => pure ()
  | limit + 1 => do
    skipToToken
    forgetStale
    leaveTo (← get).place.column
    match (← get).place.rest with
    | [] =>
      leaveTo (-1)
      forgetKey
    | c :: _ =>
      next c
      all limit

end Cutting

/-- The tokens of a text. -/
def tokens (text : Text) : Except Fault (List Token) := do
  if !text.all isPrintable then throw .malformed
  let (_, layout) ← (Cutting.all (text.length + 1)).run { place := { rest := text } }
  return layout.tokens.toList

end SourceLoom.Yaml
