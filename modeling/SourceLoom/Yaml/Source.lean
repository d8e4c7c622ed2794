import SourceLoom.Text.Numeral
import SourceLoom.Text.Quoted

/-!
# YAML: the text and a place in it

A text is read from left to right at a place that knows its line and its column, because what a
character means depends on the column it stands in. Nothing follows the end of the text, and the
end counts as a line end.
-/

namespace SourceLoom.Yaml

/-- What a part of a date was given that it cannot be. -/
inductive DatePart where
  | year
  | month
  | day
  | hour
  | minute
  | second
  deriving DecidableEq, Repr

/-- Why a text is not read. -/
inductive Fault where
  /-- It is not YAML, or holds what no setting needs. -/
  | malformed
  /-- An escape names a number beyond the last code point. -/
  | noCodePoint
  /-- An escape names a number beyond 31 bits. -/
  | largeCodePoint
  /-- A whole number cannot be read. -/
  | badInteger (base : Nat) (text : Text)
  /-- A whole number has so many digits that it is not read. -/
  | tooManyDigits (count : Nat)
  /-- A whole number has no digits at all. -/
  | noDigits
  /-- Another number cannot be read. -/
  | badFloat (text : Text)
  /-- A truth value cannot be read. -/
  | badBool (text : Text)
  /-- A date cannot be read. -/
  | badTime
  /-- A part of a date is out of its range. -/
  | badDate (part : DatePart) (value : Nat)
  /-- The distance from universal time is a day or more. -/
  | badOffset (days seconds : Int)
  deriving DecidableEq, Repr

/-- The message for a part of a date. -/
def DatePart.message (value : Nat) : DatePart → Text
  | year => "year ".toList ++ Text.ofNat value ++ " is out of range".toList
  | month => "month must be in 1..12".toList
  | day => "day is out of range for month".toList
  | hour => "hour must be in 0..23".toList
  | minute => "minute must be in 0..59".toList
  | second => "second must be in 0..59".toList

/-- A length of time as days and seconds. -/
def writtenOffset (days seconds : Int) : Text :=
  let part (name : String) (n : Int) : List Text :=
    if n = 0 then [] else [name.toList ++ '=' :: Text.ofInt n]
  "datetime.timedelta(".toList ++
    Text.join ", ".toList (part "days" days ++ part "seconds" seconds) ++ [')']

/-- The message of a fault. What is malformed is not told. -/
def Fault.message : Fault → Text
  | malformed => "...".toList
  | noCodePoint => "chr() arg not in range(0x110000)".toList
  | largeCodePoint => "Python int too large to convert to C int".toList
  | badInteger base text =>
    "invalid literal for int() with base ".toList ++ Text.ofNat base ++ ": ".toList ++ text.quoted
  | tooManyDigits count => Text.digitComplaint count
  | noDigits => "string index out of range".toList
  | badFloat text => "could not convert string to float: ".toList ++ text.quoted
  | badBool text => text.quoted
  | badTime => "'NoneType' object has no attribute 'groupdict'".toList
  | badDate part value => part.message value
  | badOffset days seconds =>
    "offset must be a timedelta strictly between -timedelta(hours=24) and ".toList ++
      "timedelta(hours=24), not ".toList ++ writtenOffset days seconds ++ ['.']

/-- The characters that may stand in a text at all. -/
def isPrintable (c : Char) : Bool :=
  c = '\t' || c = '\n' || c = '\r' || (0x20 ≤ c.toNat && c.toNat ≤ 0x7E) || c.toNat = 0x85 ||
    (0xA0 ≤ c.toNat && c.toNat ≤ 0xFFFD) || 0x10000 ≤ c.toNat

/-- The characters that end a line. -/
def isBreak (c : Char) : Bool :=
  c = '\n' || c = '\r' || c.toNat = 0x85 || c.toNat = 0x2028 || c.toNat = 0x2029

/-- Whether a line ends before what follows. -/
def endsLine (next : Option Char) : Bool := next.all isBreak

/-- Whether a line ends or a space stands before what follows. -/
def endsWord (next : Option Char) : Bool := next.all fun c => isBreak c || c = ' '

/-- Whether a line ends or a blank stands before what follows. -/
def isGap (next : Option Char) : Bool := next.all fun c => isBreak c || c = ' ' || c = '\t'

/-- A place in a text. -/
structure Place where
  /-- What follows the place. -/
  rest : Text
  /-- The number of characters before it. -/
  index : Nat := 0
  /-- The number of lines before its own. -/
  line : Nat := 0
  /-- The number of characters before it on its line. -/
  column : Nat := 0
  deriving DecidableEq, Repr

namespace Place

/-- The place one character on. A mark of byte order takes no column. -/
def step (place : Place) : Place :=
  match place.rest with
  | [] => place
  | c :: rest =>
    if isBreak c ∧ !(c = '\r' ∧ rest.head? = some '\n') then
      ⟨rest, place.index + 1, place.line + 1, 0⟩
    else
      ⟨rest, place.index + 1, place.line,
        if c.toNat = 0xFEFF then place.column else place.column + 1⟩

/-- The place so many characters on. -/
def skip : Nat → Place → Place
  | 0, place => place
  | n + 1, place => skip n place.step

/-- Whether a line of three certain characters that separates documents begins at the place, if it
is at the beginning of a line. -/
def atSeparator (place : Place) : Bool :=
  (place.rest.take 3 = "---".toList || place.rest.take 3 = "...".toList) && isGap place.rest[3]?

end Place

/-- A step of reading at a place. -/
abbrev Scanning := StateT Place (Except Fault)

namespace Scanning

/-- The character so many characters on. -/
def peekAt (n : Nat) : Scanning (Option Char) := return (← get).rest[n]?

/-- The next character. -/
def peek : Scanning (Option Char) := return (← get).rest.head?

/-- Passes so many characters. -/
def skip (n : Nat) : Scanning Unit := modify (Place.skip n)

/-- Takes the characters that pass a test. -/
def takeWhile (test : Char → Bool) : Scanning Text := do
  let text := (← get).rest.takeWhile test
  skip text.length
  return text

/-- Passes the characters that pass a test. -/
def skipWhile (test : Char → Bool) : Scanning Unit := do
  let _ ← takeWhile test

/-- Takes a line end, if one is next. All but two separators of lines become a line feed. -/
def takeBreak : Scanning Text := do
  match (← get).rest with
  | '\r' :: '\n' :: _ =>
    skip 2
    return ['\n']
  | c :: _ =>
    if isBreak c then
      skip 1
      return if c.toNat = 0x2028 ∨ c.toNat = 0x2029 then [c] else ['\n']
    else return []
  | [] => return []

/-- Fails unless a condition holds. -/
def require (condition : Bool) : Scanning Unit :=
  if condition then pure () else throw .malformed

/-- Passes a comment, if one is next. -/
def skipComment : Scanning Unit := do
  if (← peek) = some '#' then skipWhile fun c => !isBreak c

/-- Passes the rest of a line on which only a comment may stand. -/
def skipLine : Scanning Unit := do
  skipWhile (· = ' ')
  skipComment
  require (endsLine (← peek))
  let _ ← takeBreak

end Scanning

end SourceLoom.Yaml
