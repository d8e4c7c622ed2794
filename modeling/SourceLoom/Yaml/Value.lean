import SourceLoom.Datum
import SourceLoom.Text.LetterCase
import SourceLoom.Yaml.Source
import SourceLoom.Yaml.Tag

/-!
# YAML: values of scalars

What the text of a scalar with a tag stands for. A tag that was written may stand before a text
that does not have the form of such a value, and then the text cannot be read.
-/

namespace SourceLoom.Yaml

/-- A text without a leading sign, and whether the sign is a minus. -/
def splitSign : Text → Bool × Text
  | '-' :: rest => (true, rest)
  | '+' :: rest => (false, rest)
  | text => (false, text)

/-- A number with a sign. -/
def signed (negative : Bool) (n : Nat) : Int := if negative then -(n : Int) else n

/-- The value of a digit of any script or, for great bases, of a letter. -/
def digitOf? (c : Char) : Option Nat :=
  match Text.digit? c with
  | some value => some value
  | none =>
    if ('a' ≤ c ∧ c ≤ 'z') ∨ ('A' ≤ c ∧ c ≤ 'Z') then some (c.toLower.toNat - 'a'.toNat + 10)
    else none

/-- A numeral without the mark of its base, which it may carry. -/
def withoutMark (base : Nat) : Text → Text
  | '0' :: c :: rest =>
    let mark := c.toLower
    if (base = 2 ∧ mark = 'b') ∨ (base = 8 ∧ mark = 'o') ∨ (base = 16 ∧ mark = 'x') then rest
    else '0' :: c :: rest
  | text => text

/-- A whole number to a base, with an optional sign and blanks around it. -/
def wholeNumber (base : Nat) (text : Text) : Except Fault Int :=
  let (negative, digits) := splitSign (Text.trimNumeral text)
  match (withoutMark base digits).mapM digitOf? with
  | none => .error (.badInteger base text)
  | some values =>
    if values = [] ∨ values.any (base ≤ ·) then .error (.badInteger base text)
    else if base = 10 ∧ Text.digitLimit < values.length then .error (.tooManyDigits values.length)
    else .ok (signed negative (Text.valueOfDigits base values))

/-- The whole number of a scalar. -/
def intOf (text : Text) : Except Fault Int := do
  let text := text.filter (· ≠ '_')
  if text = [] then throw .noDigits
  let (negative, digits) := splitSign text
  let value ←
    match digits with
    | [] => throw .noDigits
    | ['0'] => pure 0
    | '0' :: 'b' :: digits => wholeNumber 2 digits
    | '0' :: 'x' :: digits => wholeNumber 16 digits
    | '0' :: _ => wholeNumber 8 digits
    | _ =>
      let parts ← (Text.splitOn ':' digits).mapM (wholeNumber 10)
      pure (parts.foldl (fun value part => value * 60 + part) 0)
  return if negative then -value else value

/-- The digits of a text in ASCII and what follows them. -/
def spanDigits (text : Text) : Text × Text :=
  (text.takeWhile fun c => '0' ≤ c && c ≤ '9', text.dropWhile fun c => '0' ≤ c && c ≤ '9')

/-- The value of decimal digits. -/
def decimalValue (digits : Text) : Nat :=
  Text.valueOfDigits 10 (digits.map fun c => c.toNat - '0'.toNat)

/-- The exponent that ends a number, or zero if nothing does. -/
def endingExponent? : Text → Option Int
  | [] => some 0
  | c :: rest =>
    let (negative, rest) := splitSign rest
    let (digits, rest) := spanDigits rest
    if c.toLower = 'e' ∧ digits ≠ [] ∧ rest = [] then some (signed negative (decimalValue digits))
    else none

/-- A text in which the digits of all scripts are those of ASCII. -/
def withAsciiDigits (text : Text) : Text :=
  text.map fun c =>
    match Text.digit? c with
    | some value => Char.ofNat ('0'.toNat + value)
    | none => c

/-- A number in decimal notation, or a word for one. -/
def decimalNumber? (text : Text) : Option Decimal.Binary64 :=
  let (negative, rest) := splitSign (withAsciiDigits (Text.strip text))
  if rest ∈ ["inf".toList, "infinity".toList] then some (.infinite negative)
  else if rest = "nan".toList then some .undefined
  else
    let (whole, rest) := spanDigits rest
    let (fraction, rest) := match rest with
      | '.' :: rest => spanDigits rest
      | rest => ([], rest)
    if whole ++ fraction = [] then none
    else (endingExponent? rest).map fun exponent =>
      .ofDecimal negative (decimalValue (whole ++ fraction)) (exponent - fraction.length)

/-- A number in decimal notation. -/
def decimalNumber (text : Text) : Except Fault Decimal.Binary64 :=
  match decimalNumber? text with
  | some number => .ok number
  | none => .error (.badFloat text)

/-- A number with its sign reversed. -/
def reversed : Decimal.Binary64 → Decimal.Binary64
  | .finite negative mantissa exponent => .finite (!negative) mantissa exponent
  | .infinite negative => .infinite !negative
  | .undefined => .undefined

/-- The number to base sixty that has these parts. -/
def sexagesimal (parts : List Decimal.Binary64) : Decimal.Binary64 :=
  let sum : Option (Nat × Nat) := parts.foldl (fun sum part =>
    match sum, part with
    | some (num, den), .finite _ mantissa exponent =>
      let (m, d) := Decimal.Binary64.quotient mantissa exponent
      some (num * 60 * d + m * den, den * d)
    | _, _ => none) (some (0, 1))
  match sum with
  | some (num, den) => .ofQuotient false num den
  | none => .undefined

/-- The number of a scalar that is not whole. -/
def floatOf (text : Text) : Except Fault Decimal.Binary64 := do
  let text := (text.filter (· ≠ '_')).map Text.lower
  if text = [] then throw .noDigits
  let (negative, digits) := splitSign text
  let value ←
    if digits = ".inf".toList then pure (.infinite false)
    else if digits = ".nan".toList then pure .undefined
    else if ':' ∈ digits then
      pure (sexagesimal (← (Text.splitOn ':' digits).mapM decimalNumber))
    else decimalNumber digits
  return if negative then reversed value else value

/-- The truth value of a scalar. -/
def boolOf (text : Text) : Except Fault Bool :=
  let word := text.map Text.lower
  if word ∈ ["yes".toList, "true".toList, "on".toList] then .ok true
  else if word ∈ ["no".toList, "false".toList, "off".toList] then .ok false
  else .error (.badBool word)

/-- The value of a letter of text that stands for bytes. -/
def sextet? (c : Char) : Option Nat :=
  if ('A' ≤ c ∧ c ≤ 'Z') ∨ ('a' ≤ c ∧ c ≤ 'z') ∨ ('0' ≤ c ∧ c ≤ '9') ∨ c = '+' ∨ c = '/' then
    some c.toNat
  else none

/-- Whether a text stands for bytes: its letters come in fours, of which the last may be filled up
by equals signs, and what is no letter does not count. -/
def isBase64From : (letters fill : Nat) → Text → Bool
  | letters, _, [] => letters = 0
  | letters, fill, c :: rest =>
    if c = '=' then
      if 2 ≤ letters then
        if 4 ≤ letters + (fill + 1) then true else isBase64From letters (fill + 1) rest
      else isBase64From letters fill rest
    else if (sextet? c).isSome then isBase64From ((letters + 1) % 4) 0 rest
    else isBase64From letters fill rest

/-- The number of days of a month. -/
def daysOf (year month : Nat) : Nat :=
  if month = 2 then
    if year % 4 = 0 ∧ (year % 100 ≠ 0 ∨ year % 400 = 0) then 29 else 28
  else if month ∈ [4, 6, 9, 11] then 30 else 31

/-- Fails where a part of a date is out of its range. -/
def checkDate (year month day : Nat) : Except Fault Unit :=
  if year = 0 then .error (.badDate .year year)
  else if month = 0 ∨ 12 < month then .error (.badDate .month month)
  else if day = 0 ∨ daysOf year month < day then .error (.badDate .day day)
  else .ok ()

/-- Fails where a part of a time is out of its range. -/
def checkTime (hour minute second : Nat) : Except Fault Unit :=
  if 23 < hour then .error (.badDate .hour hour)
  else if 59 < minute then .error (.badDate .minute minute)
  else if 59 < second then .error (.badDate .second second)
  else .ok ()

/-- Fails where the distance from universal time is a day or more. -/
def checkDistance (negative : Bool) (hours minutes : Nat) : Except Fault Unit :=
  let seconds := signed negative (hours * 3600 + minutes * 60)
  if seconds.natAbs < 86400 then .ok ()
  else .error (.badOffset (seconds / 86400) (seconds % 86400))

/-- The date or the moment of a scalar. -/
def timestampOf (text : Text) : Except Fault Datum := do
  match Pattern.matchAt (Pattern.sequence [Tag.momentForm, .anchor .lastLineEnd]) (.start text) with
  | none => throw .badTime
  | some found =>
    let number (index : Nat) : Nat := decimalValue ((found.group? index).getD [])
    if (found.group? 4).isNone then
      checkDate (number 1) (number 2) (number 3)
      return .foreign "datetime.date".toList text
    else
      if (found.group? 9).isSome then
        checkDistance (found.group? 9 = some ['-']) (number 10) (number 11)
      checkDate (number 1) (number 2) (number 3)
      checkTime (number 4) (number 5) (number 6)
      return .foreign "datetime.datetime".toList text

/-- The value of a scalar with a tag. -/
def scalarValue (tag text : Text) : Except Fault Datum :=
  if tag = Tag.text then .ok (.text text)
  else if tag = Tag.null then .ok .null
  else if tag = Tag.bool then (boolOf text).map .bool
  else if tag = Tag.int then (intOf text).map .int
  else if tag = Tag.float then (floatOf text).map .float
  else if tag = Tag.timestamp then timestampOf text
  else if tag = Tag.binary then
    if text.all (·.toNat < 128) ∧ isBase64From 0 0 text then .ok (.foreign "bytes".toList text)
    else .error .malformed
  else .error .malformed

end SourceLoom.Yaml
