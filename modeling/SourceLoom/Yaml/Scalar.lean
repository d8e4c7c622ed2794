import SourceLoom.Yaml.Source

/-!
# YAML: the text of scalars

A scalar is written plainly, in quotes, or as a block of lines. In all of them line ends fold: a
single one becomes a space, and of several the first is dropped; a block keeps them if it says so.
-/

namespace SourceLoom.Yaml

open Scanning

/-- Line ends as they count in a folded text, from the first one and those of the empty lines after
it. -/
def folded (first : Text) (others : List Text) : Text :=
  (if first ≠ ['\n'] then first else if others = [] then [' '] else []) ++ others.flatten

/-- The hexadecimal digits. -/
def isHexadecimal (c : Char) : Bool :=
  ('0' ≤ c && c ≤ '9') || ('a' ≤ c && c ≤ 'f') || ('A' ≤ c && c ≤ 'F')

/-- The value of a digit to any base. -/
def digitValue (c : Char) : Nat :=
  if '0' ≤ c ∧ c ≤ '9' then c.toNat - '0'.toNat else c.toLower.toNat - 'a'.toNat + 10

/-- The value of digits to a base. -/
def valueOf (base : Nat) (digits : Text) : Nat := Text.valueOfDigits base (digits.map digitValue)

/-- The characters that a character after a backslash stands for. -/
def escaped? : Char → Option Char
  | '0' => some '\x00'
  | 'a' => some '\x07'
  | 'b' => some '\x08'
  | 't' => some '\t'
  | '\t' => some '\t'
  | 'n' => some '\n'
  | 'v' => some '\x0B'
  | 'f' => some '\x0C'
  | 'r' => some '\r'
  | 'e' => some '\x1B'
  | ' ' => some ' '
  | '"' => some '"'
  | '\\' => some '\\'
  | '/' => some '/'
  | 'N' => some (Char.ofNat 0x85)
  | '_' => some (Char.ofNat 0xA0)
  | 'L' => some (Char.ofNat 0x2028)
  | 'P' => some (Char.ofNat 0x2029)
  | _ => none

/-- How many hexadecimal digits an escape by number has. -/
def digitsAfter? : Char → Option Nat
  | 'x' => some 2
  | 'u' => some 4
  | 'U' => some 8
  | _ => none

/-- The character of an escape by number. A number that is no character stands for the replacement
character. -/
def readNumbered (count : Nat) : Scanning Text := do
  let digits := (← get).rest.take count
  require (digits.length = count && digits.all isHexadecimal)
  let n := valueOf 16 digits
  if 0x7FFFFFFF < n then throw .largeCodePoint
  if 0x10FFFF < n then throw .noCodePoint
  skip count
  return [if n.isValidChar then Char.ofNat n else Char.ofNat 0xFFFD]

/-- The line ends of empty lines, with the blanks around them passed. No line may separate
documents. -/
def readFlowBreaks : (limit : Nat) → Scanning (List Text)
  | 0 => pure []
  | limit + 1 => do
    require !(← get).atSeparator
    skipWhile fun c => c = ' ' || c = '\t'
    match ← takeBreak with
    | [] => return []
    | lineEnd => return lineEnd :: (← readFlowBreaks limit)

/-- What a backslash, which was passed, and what follows it stand for. -/
def readEscape (limit : Nat) : Scanning Text := do
  match ← peek with
  | none => throw .malformed
  | some c =>
    match escaped? c, digitsAfter? c with
    | some char, _ =>
      skip 1
      return [char]
    | none, some count =>
      skip 1
      readNumbered count
    | none, none =>
      require (isBreak c)
      let _ ← takeBreak
      return (← readFlowBreaks limit).flatten

/-- The text of a scalar in quotes up to its closing quote, at most so many pieces. -/
def readQuoted (quote : Char) : (limit : Nat) → Scanning Text
  | 0 => throw .malformed
  | limit + 1 => do
    let piece ← takeWhile fun c =>
      !(isBreak c || c = ' ' || c = '\t' || c = '\'' || c = '"' || c = '\\')
    match ← peek with
    | none => throw .malformed
    | some c =>
      if quote = '\'' ∧ c = '\'' ∧ (← peekAt 1) = some '\'' then
        skip 2
        return piece ++ '\'' :: (← readQuoted quote limit)
      else if c = quote then
        skip 1
        return piece
      else if quote = '"' ∧ c = '\\' then
        skip 1
        let char ← readEscape limit
        return piece ++ char ++ (← readQuoted quote limit)
      else if c = ' ' ∨ c = '\t' ∨ isBreak c then
        let blanks ← takeWhile fun c => c = ' ' || c = '\t'
        require (← peek).isSome
        match ← takeBreak with
        | [] => return piece ++ blanks ++ (← readQuoted quote limit)
        | first =>
          let others ← readFlowBreaks limit
          return piece ++ folded first others ++ (← readQuoted quote limit)
      else
        skip 1
        return piece ++ c :: (← readQuoted quote limit)

/-- The line ends of empty lines, with the spaces around them passed, and whether a line that
separates documents follows. -/
def readPlainBreaks : (limit : Nat) → Scanning (List Text × Bool)
  | 0 => pure ([], false)
  | limit + 1 => do
    skipWhile (· = ' ')
    match ← takeBreak with
    | [] => return ([], false)
    | lineEnd =>
      if (← get).atSeparator then return ([lineEnd], true)
      let (others, separated) ← readPlainBreaks limit
      return (lineEnd :: others, separated)

/-- The space inside a plain scalar. -/
structure PlainSpace where
  /-- What it counts as; nothing where the scalar ends. -/
  text : Text
  /-- Whether it crosses a line end. -/
  crossed : Bool

/-- The space after a piece of a plain scalar. -/
def readPlainSpace (limit : Nat) : Scanning PlainSpace := do
  let blanks ← takeWhile (· = ' ')
  match ← takeBreak with
  | [] => return ⟨blanks, false⟩
  | first =>
    if (← get).atSeparator then return ⟨[], true⟩
    let (others, separated) ← readPlainBreaks limit
    return ⟨if separated then [] else folded first others, true⟩

/-- The number of characters of a piece of a plain scalar that begins a text. A colon before a gap
ends it, and inside brackets every bracket and comma and question mark does. -/
def plainLength (inFlow : Bool) : Text → Nat
  | [] => 0
  | c :: rest =>
    let gap := isGap rest.head? ||
      (inFlow && rest.head?.any (· ∈ [',', '[', ']', '\x7b', '\x7d']))
    if isGap (some c) ∨ (c = ':' ∧ gap) ∨
        (inFlow ∧ c ∈ [',', '?', '[', ']', '\x7b', '\x7d']) then 0
    else plainLength inFlow rest + 1

/-- The text of a plain scalar whose lines are indented by more than `indent`, at most so many
pieces, and whether a line end was crossed after its last piece. -/
def readPlain (inFlow : Bool) (indent : Int) : (limit : Nat) → (space : PlainSpace) →
    Scanning (Text × Bool)
  | 0, space => pure ([], space.crossed)
  | limit + 1, space => do
    let rest := (← get).rest
    let length := if rest.head? = some '#' then 0 else plainLength inFlow rest
    if length = 0 then return ([], space.crossed)
    let piece := rest.take length
    skip length
    let after ← readPlainSpace limit
    let place ← get
    let isOut := !inFlow && (place.column : Int) ≤ indent
    if after.text = [] ∨ place.rest.head? = some '#' ∨ isOut then
      return (space.text ++ piece, after.crossed)
    let (more, crossed) ← readPlain inFlow indent limit after
    return (space.text ++ piece ++ more, crossed)

/-- How a block scalar ends. -/
inductive Chomping where
  /-- With one line end, if the block has any. -/
  | clip
  /-- Without a line end. -/
  | strip
  /-- With all line ends. -/
  | keep
  deriving DecidableEq, Repr

/-- The chomping that a mark stands for. -/
def Chomping.ofChar? : Char → Option Chomping
  | '+' => some keep
  | '-' => some strip
  | _ => none

/-- The number of spaces that a block is indented by, if the next character gives it. -/
def readIncrement : Scanning (Option Nat) := do
  match ← peek with
  | some c =>
    if '0' ≤ c ∧ c ≤ '9' then
      require (c ≠ '0')
      skip 1
      return some (digitValue c)
    else return none
  | none => return none

/-- The chomping that the next character asks for, if it does. -/
def readChomping : Scanning (Option Chomping) := do
  match (← peek).bind Chomping.ofChar? with
  | some chomping =>
    skip 1
    return some chomping
  | none => return none

/-- The marks after the sign of a block scalar, in any order. -/
def readBlockMarks : Scanning (Chomping × Option Nat) := do
  let first ← readChomping
  let increment ← readIncrement
  let second ← if first = none ∧ increment ≠ none then readChomping else pure none
  require (endsWord (← peek))
  return ((first <|> second).getD .clip, increment)

/-- The line ends before the first line of a block, and the greatest column on the way. -/
def readLeadingBreaks : (limit : Nat) → (greatest : Nat) → Scanning (List Text × Nat)
  | 0, greatest => pure ([], greatest)
  | limit + 1, greatest => do
    skipWhile (· = ' ')
    let greatest := max greatest (← get).column
    match ← takeBreak with
    | [] => return ([], greatest)
    | lineEnd =>
      let (others, greatest) ← readLeadingBreaks limit greatest
      return (lineEnd :: others, greatest)

/-- Passes spaces up to a column. -/
def skipToColumn (column : Nat) : Scanning Unit := do
  let place ← get
  let spaces := (place.rest.takeWhile (· = ' ')).length
  skip (min spaces (column - place.column))

/-- The line ends of the empty lines of a block, with the indentation after them passed. -/
def readBlockBreaks (column : Nat) : (limit : Nat) → Scanning (List Text)
  | 0 => pure []
  | limit + 1 => do
    skipToColumn column
    match ← takeBreak with
    | [] => return []
    | lineEnd => return lineEnd :: (← readBlockBreaks column limit)

/-- Whether a line of a block begins here. -/
def atBlockLine (column : Nat) : Scanning Bool := do
  let place ← get
  return place.column = column && place.rest ≠ []

/-- The lines of a block, at most so many, and its end. `breaks` are the line ends before the first
of them. -/
def readBlockLines (folds : Bool) (chomping : Chomping) (column : Nat) :
    (limit : Nat) → (breaks : List Text) → Scanning Text
  | 0, _ => throw .malformed
  | limit + 1, breaks => do
    let startsDark := !((← peek).any fun c => c = ' ' || c = '\t')
    let line ← takeWhile fun c => !isBreak c
    let lineEnd ← takeBreak
    let others ← readBlockBreaks column limit
    let text := breaks.flatten ++ line
    if ← atBlockLine column then
      let nextDark := !((← peek).any fun c => c = ' ' || c = '\t')
      let joint := if folds ∧ lineEnd = ['\n'] ∧ startsDark ∧ nextDark then
          if others = [] then [' '] else []
        else lineEnd
      return text ++ joint ++ (← readBlockLines folds chomping column limit others)
    else
      return text ++ (if chomping = .strip then [] else lineEnd) ++
        (if chomping = .keep then others.flatten else [])

/-- The text of a block scalar whose sign was passed. Its lines are indented by more than
`indent`. -/
def readBlock (folds : Bool) (indent : Int) (limit : Nat) : Scanning Text := do
  let (chomping, increment) ← readBlockMarks
  skipLine
  let least := (max (indent + 1) 1).toNat
  let (breaks, column) ← match increment with
    | none =>
      let (breaks, greatest) ← readLeadingBreaks limit 0
      pure (breaks, max least greatest)
    | some increment =>
      let column := least + increment - 1
      pure (← readBlockBreaks column limit, column)
  if ← atBlockLine column then readBlockLines folds chomping column limit breaks
  else return if chomping = .keep then breaks.flatten else []

end SourceLoom.Yaml
