import SourceLoom.Text.Utf8
import SourceLoom.Yaml.Scalar

/-!
# YAML: tokens

The parts that a text is made of, and the reading of those that have a form of their own: names of
anchors, tags, and directives.
-/

namespace SourceLoom.Yaml

/-- A directive before a document. -/
inductive Directive where
  /-- The version of the format. -/
  | version (major : Nat)
  /-- What a handle of tags stands for. -/
  | handle (name meaning : Text)
  /-- Any other directive, which means nothing. -/
  | other
  deriving DecidableEq, Repr

/-- A token. -/
inductive Token where
  | directive (content : Directive)
  | documentStart
  | documentEnd
  | blockSequenceStart
  | blockMappingStart
  | blockEnd
  | flowSequenceStart
  | flowSequenceEnd
  | flowMappingStart
  | flowMappingEnd
  | blockEntry
  | flowEntry
  | key
  | value
  | alias (name : Text)
  | anchor (name : Text)
  | tag (handle : Option Text) (rest : Text)
  | scalar (text : Text) (isPlain : Bool)
  deriving DecidableEq, Repr

open Scanning

/-- The letters and digits of ASCII and two marks, of which names are made. -/
def isNameChar (c : Char) : Bool :=
  ('0' ≤ c && c ≤ '9') || ('a' ≤ c && c ≤ 'z') || ('A' ≤ c && c ≤ 'Z') || c = '-' || c = '_'

/-- The characters of the rest of a tag, except for the sign of escapes. -/
def isTagChar (c : Char) : Bool :=
  isNameChar c || c ∈ [';', '/', '?', ':', '@', '&', '=', '+', '$', ',', '.', '!', '~', '*', '\'',
    '(', ')', '[', ']']

/-- A name. -/
def readName : Scanning Text := do
  let name ← takeWhile isNameChar
  require (name ≠ [])
  return name

/-- The name of an anchor or an alias, the sign before it included. -/
def readAnchorName : Scanning Text := do
  skip 1
  let name ← readName
  let next ← peek
  require (isGap next || next.any (· ∈ ['?', ':', ',', ']', '\x7d', '%', '@', '\x60']))
  return name

/-- The bytes of escapes in a tag, at most so many. -/
def readTagBytes : (limit : Nat) → Scanning (List UInt8)
  | 0 => pure []
  | limit + 1 => do
    if (← peek) ≠ some '%' then return []
    skip 1
    let digits := (← get).rest.take 2
    require (digits.length = 2 && digits.all isHexadecimal)
    skip 2
    return UInt8.ofNat (valueOf 16 digits) :: (← readTagBytes limit)

/-- The rest of a tag, in at most so many pieces. -/
def readTagPieces : (limit : Nat) → Scanning Text
  | 0 => pure []
  | limit + 1 => do
    let piece ← takeWhile isTagChar
    if (← peek) ≠ some '%' then return piece
    match Utf8.decode (← readTagBytes (← get).rest.length) with
    | .ok chars => return piece ++ chars ++ (← readTagPieces limit)
    | .error _ => throw .malformed

/-- The rest of a tag, which is not empty. -/
def readTagRest : Scanning Text := do
  let place ← get
  let next := place.rest.head?
  require (next.any fun c => isTagChar c || c = '%')
  readTagPieces (place.rest.length + 1)

/-- The handle of a tag: an exclamation mark, or a name between two of them. -/
def readHandle : Scanning Text := do
  require ((← peek) = some '!')
  skip 1
  if (← peek) = some ' ' then return ['!']
  let name ← takeWhile isNameChar
  require ((← peek) = some '!')
  skip 1
  return '!' :: name ++ ['!']

/-- A tag. -/
def readTag : Scanning Token := do
  let place ← get
  let next := place.rest[1]?
  let token ←
    if next = some '<' then
      skip 2
      let rest ← readTagRest
      require ((← peek) = some '>')
      skip 1
      pure (.tag none rest)
    else if isGap next then
      skip 1
      pure (.tag none ['!'])
    else
      let word := (place.rest.drop 1).takeWhile fun c => !endsWord (some c)
      let handle ← if '!' ∈ word then readHandle else do
        skip 1
        pure ['!']
      pure (.tag (some handle) (← readTagRest))
  require (endsWord (← peek))
  return token

/-- A number in a directive. -/
def readVersionNumber : Scanning Nat := do
  let digits ← takeWhile fun c => '0' ≤ c && c ≤ '9'
  require (digits ≠ [])
  return valueOf 10 digits

/-- A directive, its line included. -/
def readDirective : Scanning Token := do
  skip 1
  let name ← readName
  require (endsWord (← peek))
  let content ←
    if name = "YAML".toList then
      skipWhile (· = ' ')
      let major ← readVersionNumber
      require ((← peek) = some '.')
      skip 1
      let _ ← readVersionNumber
      require (endsWord (← peek))
      pure (.version major)
    else if name = "TAG".toList then
      skipWhile (· = ' ')
      let handle ← readHandle
      require ((← peek) = some ' ')
      skipWhile (· = ' ')
      let meaning ← readTagRest
      require (endsWord (← peek))
      pure (.handle handle meaning)
    else
      skipWhile fun c => !isBreak c
      pure .other
  skipLine
  return .directive content

end SourceLoom.Yaml
