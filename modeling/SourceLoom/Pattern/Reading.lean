import SourceLoom.Pattern.Source
import SourceLoom.Pattern.Width
import SourceLoom.Text.Identifier

/-!
# Reading patterns: tokens, names, escapes and sets

What a reader of a pattern knows besides the text that is left, and how it reads the smallest
parts: names of groups, numbers of digits, escapes, and sets of characters in brackets.
-/

namespace SourceLoom.Pattern

/-- The flags of a pattern or of a group in it. -/
structure Flags where
  /-- Cases do not count. -/
  ignoreCase : Bool := false
  /-- Anchors hold at every line. -/
  multiline : Bool := false
  /-- The dot is any character at all. -/
  dotAll : Bool := false
  /-- Blanks and comments mean nothing. -/
  verbose : Bool := false
  /-- Classes and cases are those of ASCII. -/
  ascii : Bool := false
  /-- Classes and cases are those of all scripts. -/
  unicode : Bool := false
  /-- Repetitions are refused. -/
  template : Bool := false
  deriving DecidableEq, Repr

/-- How cases compare under some flags. -/
def Flags.caseRule (flags : Flags) : CaseRule :=
  if !flags.ignoreCase then .exact else if flags.ascii then .ascii else .unicode

/-- What a reader knows. -/
structure Reader where
  /-- What is left of the text. -/
  source : Source
  /-- The flags that hold now. -/
  flags : Flags := {}
  /-- The widths of the groups from the first on; an open group has none yet. -/
  groups : List (Option Width) := []
  /-- The names of groups. -/
  names : List (Text × Nat) := []
  /-- Inside a condition on what precedes: the first group number that is not from before it. -/
  behindFrom : Option Nat := none
  /-- The numbers of groups that choices refer to, with the places of the first references. -/
  references : List (Nat × Nat) := []
  /-- A complaint that only counts if there is no other, with the place it belongs to. -/
  deferred : Option (Nat × Complaint) := none
  deriving DecidableEq, Repr

/-- A step of a reader. -/
abbrev Reading := StateT Reader (Except Fault)

namespace Reading

/-- The position of the next token. -/
def position : Reading Nat := return (← get).source.position

/-- The next token. -/
def peek : Reading (Option Token) := return (← get).source.next

/-- So many tokens are left at most. -/
def size : Reading Nat := return (← get).source.size

/-- Complains about a place. -/
def refuseAt {α : Type} (complaint : Complaint) (position : Nat) : Reading α :=
  throw (.refused complaint (some position))

/-- Complains about the place so many characters before the next token. -/
def refuse {α : Type} (complaint : Complaint) (back : Nat) : Reading α := do
  refuseAt complaint ((← position) - back)

/-- Takes the next token. -/
def take : Reading (Option Token) := do
  let reader ← get
  let source ← reader.source.advance
  set { reader with source }
  return reader.source.next

/-- Takes the next token if it is a certain character. -/
def skip (c : Char) : Reading Bool := do
  if (← peek) = some (.plain c) then
    let _ ← take
    return true
  else return false

/-- Takes up to so many characters that pass a test. -/
def takeWhile (test : Char → Bool) : (limit : Nat) → Reading Text
  | 0 => pure []
  | limit + 1 => do
    match ← peek with
    | some (.plain c) =>
      if test c then
        let _ ← take
        return c :: (← takeWhile test limit)
      else return []
    | _ => return []

/-- Takes a name up to the character that ends it, which is taken too. -/
def takeName (what : Text) (terminator : Char) : (limit : Nat) → (sofar : Text) → Reading Text
  | 0, sofar => refuse (.unterminatedName terminator) sofar.length
  | limit + 1, sofar => do
    match ← take with
    | none =>
      if sofar = [] then refuse (.missingName what) 0
      else refuse (.unterminatedName terminator) sofar.length
    | some token =>
      if token = .plain terminator then
        if sofar = [] then refuse (.missingName what) 1 else return sofar
      else takeName what terminator limit (sofar ++ token.toText)

/-- Takes the name of a group. -/
def takeGroupName (terminator : Char) : Reading Text := do
  takeName "group name".toList terminator ((← size) + 1) []

/-- Takes tokens up to one of a kind, which is taken too, or to the end. -/
def dropPast (isLast : Token → Bool) : (limit : Nat) → Reading Bool
  | 0 => pure false
  | limit + 1 => do
    match ← take with
    | none => return false
    | some token => if isLast token then return true else dropPast isLast limit

/-- Notes a complaint that belongs to a place. Of several the one with the first place counts, and
at one place the one noted last, which belongs to what encloses the others. -/
def defer (position : Nat) (complaint : Complaint) : Reading Unit :=
  modify fun reader =>
    { reader with
      deferred := match reader.deferred with
        | some (former, other) =>
          if position ≤ former then some (position, complaint) else some (former, other)
        | none => some (position, complaint) }

/-- Whether a group is closed. -/
def isClosed (index : Nat) : Reading Bool := do
  return index ≠ 0 && ((← get).groups[index - 1]?.join).isSome

/-- Inside a condition on what precedes, refuses a reference to a group that is open or belongs to
the condition. -/
def checkBehind (index : Nat) : Reading Unit := do
  match (← get).behindFrom with
  | none => pure ()
  | some first =>
    if !(← isClosed index) then refuse .openGroup 0
    if first ≤ index then refuse .groupOfSameBehind 0

end Reading

open Reading

/-- The octal digits. -/
def isOctal (c : Char) : Bool := '0' ≤ c && c ≤ '7'

/-- The decimal digits. -/
def isDecimal (c : Char) : Bool := '0' ≤ c && c ≤ '9'

/-- The hexadecimal digits. -/
def isHexadecimal (c : Char) : Bool :=
  isDecimal c || ('a' ≤ c && c ≤ 'f') || ('A' ≤ c && c ≤ 'F')

/-- The value of a digit. -/
def digitValue (c : Char) : Nat :=
  if isDecimal c then c.toNat - '0'.toNat else c.toLower.toNat - 'a'.toNat + 10

/-- The value of digits to a base. -/
def valueOf (base : Nat) (digits : Text) : Nat := Text.valueOfDigits base (digits.map digitValue)

/-- A letter of ASCII. -/
def isAsciiLetter (c : Char) : Bool := ('a' ≤ c && c ≤ 'z') || ('A' ≤ c && c ≤ 'Z')

/-- The code points that letters after a backslash stand for. -/
def controlEscape? : Char → Option Nat
  | 'a' => some 0x7
  | 'b' => some 0x8
  | 'f' => some 0xC
  | 'n' => some 0xA
  | 'r' => some 0xD
  | 't' => some 0x9
  | 'v' => some 0xB
  | '\\' => some 0x5C
  | _ => none

/-- The classes that letters after a backslash stand for, and whether they are negated. -/
def classEscape? : Char → Option (CharClass × Bool)
  | 'd' => some (.digit, false)
  | 'D' => some (.digit, true)
  | 's' => some (.blank, false)
  | 'S' => some (.blank, true)
  | 'w' => some (.word, false)
  | 'W' => some (.word, true)
  | _ => none

/-- How many hexadecimal digits an escape by number has. -/
def digitsAfter? : Char → Option Nat
  | 'x' => some 2
  | 'u' => some 4
  | 'U' => some 8
  | _ => none

/-- The greatest code point. -/
def lastCodePoint : Nat := 0x10FFFF

/-- The greatest code point that an octal escape can name. -/
def lastOctal : Nat := 0o377

/-- An escape by number or by name, if the letter after the backslash announces one. No name of a
character is known. -/
def readNumbered (letter : Char) : Reading (Option Nat) := do
  match digitsAfter? letter with
  | some count =>
    let digits ← takeWhile isHexadecimal count
    let escape := '\\' :: letter :: digits
    if digits.length ≠ count then refuse (.incompleteEscape escape) escape.length
    let point := valueOf 16 digits
    if lastCodePoint < point then refuse (.badEscape escape) escape.length
    return some point
  | none =>
    if letter = 'N' then
      if !(← skip '\x7b') then refuse .missingBrace 0
      let name ← takeName "character name".toList '\x7d' ((← size) + 1) []
      refuse (.unknownCharacter name) (name.length + 4)
    else return none

/-- A part of a set of characters. -/
inductive SetPart where
  /-- A code point. -/
  | point (n : Nat)
  /-- The code points from the first to the last. -/
  | range (first last : Nat)
  /-- A class, or what is outside it. -/
  | kind (members : CharClass) (negated : Bool)
  deriving DecidableEq, Repr

/-- The first code point at or after a given one that is a character. -/
def charFrom (n : Nat) : Char := if 0xD800 ≤ n ∧ n ≤ 0xDFFF then Char.ofNat 0xE000 else Char.ofNat n

/-- The last code point at or before a given one that is a character. -/
def charTo (n : Nat) : Char := if 0xD800 ≤ n ∧ n ≤ 0xDFFF then Char.ofNat 0xD7FF else Char.ofNat n

/-- The items of a part of a set. Code points that are no characters are in no text. -/
def SetPart.item (ascii : Bool) : SetPart → CharItem
  | point n => .range (charFrom n) (charTo n)
  | range first last => .range (charFrom first) (charTo last)
  | kind members negated => .inClass members negated ascii

/-- The set of some parts. -/
def setOf (flags : Flags) (negated : Bool) (parts : List SetPart) : CharSet :=
  ⟨negated, parts.map (SetPart.item flags.ascii), flags.caseRule⟩

/-- An escape inside a set. -/
def readSetEscape (c : Char) : Reading SetPart := do
  match controlEscape? c, classEscape? c with
  | some point, _ => return .point point
  | none, some (members, negated) => return .kind members negated
  | none, none =>
    match ← readNumbered c with
    | some point => return .point point
    | none =>
      if isOctal c then
        let digits := c :: (← takeWhile isOctal 2)
        let point := valueOf 8 digits
        if lastOctal < point then refuse (.largeOctal ('\\' :: digits)) (digits.length + 1)
        return .point point
      else if isDecimal c ∨ isAsciiLetter c then refuse (.badEscape ['\\', c]) 2
      else return .point c.toNat

/-- The part of a set that a token begins. -/
def readSetPart : Token → Reading SetPart
  | .plain c => pure (.point c.toNat)
  | .escaped c => readSetEscape c

/-- The parts of a set after those found so far, up to its closing bracket; `start` is the place of
its opening bracket. -/
def readSetParts (start : Nat) : (limit : Nat) → (found : List SetPart) → Reading (List SetPart)
  | 0, _ => refuseAt .unterminatedSet start
  | limit + 1, found => do
    match ← take with
    | none => refuseAt .unterminatedSet start
    | some first =>
      if first = .plain ']' ∧ found ≠ [] then return found
      let part ← readSetPart first
      if !(← skip '-') then readSetParts start limit (found ++ [part])
      else
        match ← take with
        | none => refuseAt .unterminatedSet start
        | some last =>
          if last = .plain ']' then return found ++ [part, .point '-'.toNat]
          let other ← readSetPart last
          match part, other with
          | .point least, .point most =>
            if most < least then
              refuse (.badRange first.toText last.toText)
                (first.toText.length + 1 + last.toText.length)
            readSetParts start limit (found ++ [.range least most])
          | _, _ =>
            refuse (.badRange first.toText last.toText)
              (first.toText.length + 1 + last.toText.length)

/-- A set whose opening bracket, at a place, was taken. -/
def readSet (start : Nat) : Reading CharSet := do
  let negated ← skip '^'
  let parts ← readSetParts start ((← size) + 1) []
  return setOf (← get).flags negated parts

end SourceLoom.Pattern
