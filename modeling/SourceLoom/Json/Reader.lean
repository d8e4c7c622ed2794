import SourceLoom.Json.Basic
import SourceLoom.Text.Numeral

/-!
# Reading JSON

A reader of JSON text. It also takes `NaN`, `Infinity` and `-Infinity` for numbers, and it takes
no control character inside a string. What it refuses, it refuses with a cause and the place where
the text stops being JSON, counted as a line, a column and a position. The digits of a whole number
may be limited: a longer one is JSON, but ends the reading all the same.
-/

namespace SourceLoom.Json

/-- Why a text is not read. -/
inductive Cause where
  /-- No value begins here. -/
  | noValue
  /-- No member name begins here. -/
  | noName
  /-- A colon must follow a member name. -/
  | noColon
  /-- A comma must come before a further item. -/
  | noComma
  /-- Something follows the value. -/
  | extraData
  /-- A string holds a control character. -/
  | controlCharacter
  /-- A string does not end. -/
  | openString
  /-- A backslash does not begin an escape. -/
  | badEscape
  /-- An escape by number lacks its four digits. -/
  | badNumberEscape
  /-- The text begins with a byte order mark. -/
  | byteOrderMark
  /-- A whole number has so many digits that it is not read. -/
  | tooManyDigits (count : Nat)
  deriving DecidableEq, Repr

/-- The words for a cause. -/
def Cause.words : Cause → Text
  | noValue => "Expecting value".toList
  | noName => "Expecting property name enclosed in double quotes".toList
  | noColon => "Expecting ':' delimiter".toList
  | noComma => "Expecting ',' delimiter".toList
  | extraData => "Extra data".toList
  | controlCharacter => "Invalid control character at".toList
  | openString => "Unterminated string starting at".toList
  | badEscape => "Invalid \\escape".toList
  | badNumberEscape => "Invalid \\uXXXX escape".toList
  | byteOrderMark => "Unexpected UTF-8 BOM (decode using utf-8-sig)".toList
  | tooManyDigits count => Text.digitComplaint count

/-- Where and why reading stopped: the place is given by how much of the text was left. -/
structure Stop where
  /-- Why reading stopped. -/
  cause : Cause
  /-- The number of characters from the place to the end of the text. -/
  left : Nat
  deriving DecidableEq, Repr

/-- A fault at its position in a text. -/
structure Fault where
  /-- Why the text is not read. -/
  cause : Cause
  /-- The number of characters before the place. -/
  position : Nat
  deriving DecidableEq, Repr

/-- The message of a fault in a text: lines and columns count from one, positions from zero. Where
too many digits stand is not told. -/
def Fault.message (text : Text) (fault : Fault) : Text :=
  let before := text.take fault.position
  let line := before.count '\n' + 1
  let column := (before.reverse.takeWhile (· ≠ '\n')).length + 1
  match fault.cause with
  | .tooManyDigits _ => fault.cause.words
  | _ => fault.cause.words ++ ": line ".toList ++ Text.ofNat line ++ " column ".toList ++
      Text.ofNat column ++ " (char ".toList ++ Text.ofNat fault.position ++ [')']

/-- The characters that may stand between the parts of a value. -/
def isSpace (c : Char) : Bool := c = ' ' || c = '\t' || c = '\n' || c = '\r'

/-- A text without the space it begins with. -/
def skipSpace (text : Text) : Text := text.dropWhile isSpace

/-- The value of a hexadecimal digit. -/
def hexDigit? (c : Char) : Option Nat :=
  if '0' ≤ c ∧ c ≤ '9' then some (c.toNat - '0'.toNat)
  else if 'a' ≤ c ∧ c ≤ 'f' then some (c.toNat - 'a'.toNat + 10)
  else if 'A' ≤ c ∧ c ≤ 'F' then some (c.toNat - 'A'.toNat + 10)
  else none

/-- The number that four hexadecimal digits at the beginning of a text write. -/
def fourDigits? (text : Text) : Option Nat := do
  let digits ← (text.take 4).mapM hexDigit?
  if digits.length = 4 then return Text.valueOfDigits 16 digits else none

/-- The character that a letter after a backslash stands for. -/
def escaped? : Char → Option Char
  | '"' => some '"'
  | '\\' => some '\\'
  | '/' => some '/'
  | 'b' => some '\x08'
  | 'f' => some '\x0C'
  | 'n' => some '\n'
  | 'r' => some '\r'
  | 't' => some '\t'
  | _ => none

/-- Whether a number is the first half of a pair that writes one character beyond U+FFFF. -/
def isHighHalf (n : Nat) : Bool := 0xD800 ≤ n && n ≤ 0xDBFF

/-- Whether a number is the second half of such a pair. -/
def isLowHalf (n : Nat) : Bool := 0xDC00 ≤ n && n ≤ 0xDFFF

/-- The character for the number of an escape; a half without its partner is no character, and
the replacement character stands for it. -/
def charOfNumber (n : Nat) : Char :=
  if isHighHalf n || isLowHalf n then '\uFFFD' else Char.ofNat n

/-- Reads an escape by number, after its backslash and letter. The result tells how many
characters it has. A pair of escapes is one character if at least one character follows it. -/
def numberEscape (text : Text) : Except Stop (Char × Nat) :=
  match fourDigits? text with
  | none => .error ⟨.badNumberEscape, text.length + 1⟩
  | some high =>
    if text.drop 4 = [] then .error ⟨.badNumberEscape, text.length + 1⟩
    else
      match isHighHalf high, text.drop 4 with
      | true, '\\' :: 'u' :: rest =>
        if rest.drop 4 = [] then .ok (charOfNumber high, 4)
        else match fourDigits? rest with
          | none => .error ⟨.badNumberEscape, rest.length + 1⟩
          | some low =>
            if isLowHalf low then
              .ok (Char.ofNat (0x10000 + (high - 0xD800) * 0x400 + (low - 0xDC00)), 10)
            else .ok (charOfNumber high, 4)
      | _, _ => .ok (charOfNumber high, 4)

/-- Reads a string after its opening quote; `skip` characters still belong to the escape before.
Where the string does not end, nothing is left. -/
def stringFrom : (skip : Nat) → Text → Except Stop (Text × Text)
  | _, [] => .error ⟨.openString, 0⟩
  | skip + 1, _ :: text => stringFrom skip text
  | 0, '"' :: text => .ok ([], text)
  | 0, '\\' :: text =>
    match text with
    | [] => .error ⟨.openString, 0⟩
    | 'u' :: digits => do
      let (c, size) ← numberEscape digits
      let (rest, left) ← stringFrom (size + 1) text
      return (c :: rest, left)
    | letter :: _ =>
      match escaped? letter with
      | none => .error ⟨.badEscape, text.length + 1⟩
      | some c => do
        let (rest, left) ← stringFrom 1 text
        return (c :: rest, left)
  | 0, c :: text =>
    if c.toNat < 0x20 then .error ⟨.controlCharacter, text.length + 1⟩
    else do
      let (rest, left) ← stringFrom 0 text
      return (c :: rest, left)

/-- A stop in a text that begins with the quote of a string: a string that does not end is to
blame from its quote on. -/
def Stop.ofString (text : Text) (stop : Stop) : Stop :=
  if stop.cause = .openString then ⟨.openString, text.length⟩ else stop

/-- Reads a string from its opening quote on. -/
def quotedString (text : Text) : Except Stop (Text × Text) :=
  (stringFrom 0 (text.drop 1)).mapError (Stop.ofString text)

/-- Whether a character is a digit of ASCII, the only digits of a number. -/
def isNumberDigit (c : Char) : Bool := '0' ≤ c && c ≤ '9'

/-- The value of digits of ASCII. -/
def numberOf (digits : Text) : Nat :=
  Text.valueOfDigits 10 (digits.map fun c => c.toNat - '0'.toNat)

/-- Reads the whole part of a number: one zero, or digits that do not begin with zero. -/
def wholePart? : Text → Option (Text × Text)
  | '0' :: text => some (['0'], text)
  | c :: text =>
    if isNumberDigit c then
      some (c :: text.takeWhile isNumberDigit, text.dropWhile isNumberDigit)
    else none
  | [] => none

/-- Reads a fraction, if a digit follows a point. -/
def fractionPart (text : Text) : Option Text × Text :=
  match text with
  | '.' :: c :: rest =>
    if isNumberDigit c then
      (some (c :: rest.takeWhile isNumberDigit), rest.dropWhile isNumberDigit)
    else (none, text)
  | _ => (none, text)

/-- Reads an exponent, if a digit follows its letter and an optional sign. -/
def exponentPart (text : Text) : Option Int × Text :=
  match text with
  | letter :: rest =>
    if letter = 'e' ∨ letter = 'E' then
      let (negative, digits) :=
        match rest with
        | '-' :: more => (true, more)
        | '+' :: more => (false, more)
        | more => (false, more)
      let size := digits.takeWhile isNumberDigit
      if size = [] then (none, text)
      else
        let magnitude : Int := numberOf size
        (some (if negative then -magnitude else magnitude), digits.dropWhile isNumberDigit)
    else (none, text)
  | [] => (none, text)

/-- Reads a number after its sign, if one begins here. -/
def number? (negative : Bool) (text : Text) : Option (Json × Text) := do
  let (whole, afterWhole) ← wholePart? text
  let (fraction, afterFraction) := fractionPart afterWhole
  let (exponent, rest) := exponentPart afterFraction
  match fraction, exponent with
  | none, none =>
    let magnitude : Int := numberOf whole
    return (.int (if negative then -magnitude else magnitude), rest)
  | _, _ =>
    let places := fraction.getD []
    return (.float (.ofDecimal negative (numberOf (whole ++ places))
      (exponent.getD 0 - places.length)), rest)

/-- The values that are single words. -/
def words : List (Text × Json) :=
  [("null".toList, .null), ("true".toList, .bool true), ("false".toList, .bool false),
   ("NaN".toList, .float .undefined), ("Infinity".toList, .float (.infinite false)),
   ("-Infinity".toList, .float (.infinite true))]

/-- Whether a text begins with a minus sign, and the text after it. -/
def afterSign : Text → Bool × Text
  | '-' :: rest => (true, rest)
  | text => (false, text)

/-- Whether there are more digits than a limit, if there is one. -/
def exceeds (limit : Option Nat) (count : Nat) : Bool := limit.any (· < count)

/-- A number and what is left of the text after it, which began after a sign. The digits of a whole
number are all that was read of the text. -/
def withinLimit (limit : Option Nat) (text : Text) : Json × Text → Except Stop (Json × Text)
  | (.int value, left) =>
    let count := text.length - left.length
    if exceeds limit count then .error ⟨.tooManyDigits count, text.length⟩
    else .ok (.int value, left)
  | found => .ok found

/-- Reads a word or a number. -/
def scalar (limit : Option Nat) (text : Text) : Except Stop (Json × Text) :=
  match words.findSome? fun (word, value) => (Text.dropLeading? word text).map (value, ·) with
  | some found => .ok found
  | none =>
    let (negative, digits) := afterSign text
    match number? negative digits with
    | some found => withinLimit limit digits found
    | none => .error ⟨.noValue, text.length⟩

mutual

/-- Reads a value. The second argument bounds the depth of the reading. -/
def valueFrom (limit : Option Nat) : Nat → Text → Except Stop (Json × Text)
  | 0, text => .error ⟨.noValue, text.length⟩
  | fuel + 1, text =>
    match text with
    | '"' :: _ => do
      let (value, left) ← quotedString text
      return (.string value, left)
    | '[' :: rest =>
      match skipSpace rest with
      | ']' :: left => .ok (.array [], left)
      | left => do
        let (items, left) ← itemsFrom limit fuel left
        return (.array items, left)
    | '{' :: rest =>
      match skipSpace rest with
      | '}' :: left => .ok (.object [], left)
      | left => do
        let (members, left) ← membersFrom limit fuel [] left
        return (.object members, left)
    | _ => scalar limit text

/-- Reads the items of an array and its closing bracket. -/
def itemsFrom (limit : Option Nat) : Nat → Text → Except Stop (List Json × Text)
  | 0, text => .error ⟨.noValue, text.length⟩
  | fuel + 1, text => do
    let (item, left) ← valueFrom limit fuel text
    match skipSpace left with
    | ']' :: left => return ([item], left)
    | ',' :: left =>
      let (items, left) ← itemsFrom limit fuel (skipSpace left)
      return (item :: items, left)
    | left => throw ⟨.noComma, left.length⟩

/-- Reads the members of an object and its closing brace, after those read before. -/
def membersFrom (limit : Option Nat) :
    Nat → List (Text × Json) → Text → Except Stop (List (Text × Json) × Text)
  | 0, _, text => .error ⟨.noValue, text.length⟩
  | fuel + 1, members, text =>
    match text with
    | '"' :: _ => do
      let (name, left) ← quotedString text
      match skipSpace left with
      | ':' :: left =>
        let (value, left) ← valueFrom limit fuel (skipSpace left)
        let members := putMember name value members
        match skipSpace left with
        | '}' :: left => return (members, left)
        | ',' :: left => membersFrom limit fuel members (skipSpace left)
        | left => throw ⟨.noComma, left.length⟩
      | left => throw ⟨.noColon, left.length⟩
    | _ => .error ⟨.noName, text.length⟩

end

/-- Reads a text that is one value and nothing else. Reading goes at most two levels deeper with
each character. -/
def readAll (limit : Option Nat) (text : Text) : Except Stop Json := do
  if text.head? = some '\uFEFF' then throw ⟨.byteOrderMark, text.length⟩
  let (value, left) ← valueFrom limit (2 * text.length + 2) (skipSpace text)
  let left := skipSpace left
  if left = [] then return value else throw ⟨.extraData, left.length⟩

/-- The value that a text writes, with no more digits in a whole number than a limit. -/
def read (limit : Option Nat) (text : Text) : Except Fault Json :=
  (readAll limit text).mapError fun stop => ⟨stop.cause, text.length - stop.left⟩

end SourceLoom.Json
