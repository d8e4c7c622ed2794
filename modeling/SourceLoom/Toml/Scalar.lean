import SourceLoom.Datum
import SourceLoom.Text.Numeral

/-!
# TOML: texts, numbers and dates

The values of the format that hold no other values, and the keys. Each is read from the beginning
of a text, and what follows it is given back. A key or a value that cannot be read makes the whole
text malformed.
-/

namespace SourceLoom.Toml

/-- Why a text is not read. -/
inductive Fault where
  /-- It is no TOML. -/
  | malformed
  /-- A number has so many digits that it is not read. -/
  | tooManyDigits (count : Nat)
  deriving DecidableEq, Repr

/-- Blanks inside a line. -/
def isBlank (c : Char) : Bool := c = ' ' || c = '\t'

/-- Blanks and line ends. -/
def isSpace (c : Char) : Bool := isBlank c || c = '\n'

/-- The control characters. -/
def isControl (c : Char) : Bool := c.toNat < 0x20 || c.toNat = 0x7F

/-- Whether a character may not stand in a text, on one line or on several. -/
def isIllegal (multiline : Bool) (c : Char) : Bool :=
  isControl c && c ≠ '\t' && !(multiline && c = '\n')

/-- The decimal digits. -/
def isDecimal (c : Char) : Bool := '0' ≤ c && c ≤ '9'

/-- The hexadecimal digits. -/
def isHexadecimal (c : Char) : Bool :=
  isDecimal c || ('a' ≤ c && c ≤ 'f') || ('A' ≤ c && c ≤ 'F')

/-- The value of digits to a base. -/
def valueOf (base : Nat) (digits : Text) : Nat :=
  Text.valueOfDigits base <| digits.map fun c =>
    if isDecimal c then c.toNat - '0'.toNat else c.toLower.toNat - 'a'.toNat + 10

/-- The character named by so many hexadecimal digits. -/
def numberedChar (count : Nat) (text : Text) : Except Fault (Text × Text) :=
  let digits := text.take count
  let n := valueOf 16 digits
  if digits.length = count ∧ digits.all isHexadecimal ∧ n.isValidChar then
    .ok ([Char.ofNat n], text.drop count)
  else .error .malformed

/-- The characters that letters after a backslash stand for. -/
def escaped? : Char → Option Char
  | 'b' => some '\x08'
  | 't' => some '\t'
  | 'n' => some '\n'
  | 'f' => some '\x0C'
  | 'r' => some '\r'
  | '"' => some '"'
  | '\\' => some '\\'
  | _ => none

/-- What a backslash stands for, from what follows it. In a text of several lines a backslash at
the end of a line, blanks aside, takes away all space up to the next character. -/
def readEscape (multiline : Bool) : Text → Except Fault (Text × Text)
  | [] => .error .malformed
  | c :: rest =>
    if multiline ∧ c = '\n' then .ok ([], rest.dropWhile isSpace)
    else if multiline ∧ isBlank c then
      match rest.dropWhile isBlank with
      | [] => .ok ([], [])
      | '\n' :: rest => .ok ([], rest.dropWhile isSpace)
      | _ => .error .malformed
    else if c = 'u' then numberedChar 4 rest
    else if c = 'U' then numberedChar 8 rest
    else
      match escaped? c with
      | some char => .ok ([char], rest)
      | none => .error .malformed

/-- A text in double quotes after its opening quotes; the first `skip` characters belong to an
escape that was read. -/
def readBasic (multiline : Bool) : (skip : Nat) → Text → Except Fault (Text × Text)
  | _, [] => .error .malformed
  | skip + 1, _ :: rest => readBasic multiline skip rest
  | 0, c :: rest =>
    if c = '"' ∧ (!multiline ∨ rest.take 2 = ['"', '"']) then
      .ok ([], if multiline then rest.drop 2 else rest)
    else if c = '\\' then do
      let (piece, after) ← readEscape multiline rest
      let (text, rest) ← readBasic multiline (rest.length - after.length) rest
      return (piece ++ text, rest)
    else if isIllegal multiline c then .error .malformed
    else do
      let (text, rest) ← readBasic multiline 0 rest
      return (c :: text, rest)

/-- A text in single quotes after its opening quotes. -/
def readLiteral (multiline : Bool) : Text → Except Fault (Text × Text)
  | [] => .error .malformed
  | c :: rest =>
    if c = '\'' ∧ (!multiline ∨ rest.take 2 = ['\'', '\'']) then
      .ok ([], if multiline then rest.drop 2 else rest)
    else if isIllegal multiline c then .error .malformed
    else do
      let (text, rest) ← readLiteral multiline rest
      return (c :: text, rest)

/-- A text on several lines after its three opening quotes. A line end right after them does not
count, and up to two quotes may stand before the closing ones. -/
def readMultiline (quote : Char) (text : Text) : Except Fault (Text × Text) := do
  let text := if text.head? = some '\n' then text.drop 1 else text
  let (content, rest) ← if quote = '"' then readBasic true 0 text else readLiteral true text
  let extra := ((rest.take 2).takeWhile (· = quote)).length
  return (content ++ List.replicate extra quote, rest.drop extra)

/-- A text in quotes, the quotes included. -/
def readString (quote : Char) (text : Text) : Except Fault (Text × Text) :=
  if text.take 3 = [quote, quote, quote] then readMultiline quote (text.drop 3)
  else if quote = '"' then readBasic false 0 (text.drop 1)
  else readLiteral false (text.drop 1)

/-- The characters of keys without quotes. -/
def isKeyChar (c : Char) : Bool :=
  isDecimal c || ('a' ≤ c && c ≤ 'z') || ('A' ≤ c && c ≤ 'Z') || c = '-' || c = '_'

/-- One part of a key. -/
def readKeyPart (text : Text) : Except Fault (Text × Text) :=
  match text with
  | '\'' :: rest => readLiteral false rest
  | '"' :: rest => readBasic false 0 rest
  | _ =>
    let part := text.takeWhile isKeyChar
    if part = [] then .error .malformed else .ok (part, text.dropWhile isKeyChar)

/-- The parts of a key, with dots between them, at most so many. -/
def readKey : (limit : Nat) → Text → Except Fault (List Text × Text)
  | 0, _ => .error .malformed
  | limit + 1, text => do
    let (part, rest) ← readKeyPart text
    match rest.dropWhile isBlank with
    | '.' :: rest =>
      let (parts, rest) ← readKey limit (rest.dropWhile isBlank)
      return (part :: parts, rest)
    | rest => return ([part], rest)

/-- Digits that may have single low lines between them, after the first one. -/
def moreDigits (isDigit : Char → Bool) : Text → Text × Text
  | [] => ([], [])
  | [c] => if isDigit c then ([c], []) else ([], [c])
  | c :: d :: rest =>
    if isDigit c then
      let (digits, rest) := moreDigits isDigit (d :: rest)
      (c :: digits, rest)
    else if c = '_' ∧ isDigit d then
      let (digits, rest) := moreDigits isDigit rest
      (d :: digits, rest)
    else ([], c :: d :: rest)

/-- Digits that may have single low lines between them, if a digit comes first. -/
def digits? (isDigit : Char → Bool) : Text → Option (Text × Text)
  | [] => none
  | c :: rest =>
    if isDigit c then
      let (digits, rest) := moreDigits isDigit rest
      some (c :: digits, rest)
    else none

/-- A whole number to base sixteen, eight or two. -/
def basedNumber? : Text → Option (Datum × Text)
  | '0' :: 'x' :: rest =>
    (digits? isHexadecimal rest).map fun (ds, rest) => (.int (valueOf 16 ds), rest)
  | '0' :: 'o' :: rest =>
    (digits? (fun c => '0' ≤ c && c ≤ '7') rest).map fun (ds, rest) => (.int (valueOf 8 ds), rest)
  | '0' :: 'b' :: rest =>
    (digits? (fun c => c = '0' || c = '1') rest).map fun (ds, rest) => (.int (valueOf 2 ds), rest)
  | _ => none

/-- The digits before the point: a zero alone, or digits that begin with another one. -/
def wholeDigits? : Text → Option (Text × Text)
  | '0' :: rest => some (['0'], rest)
  | text => digits? isDecimal text

/-- The digits after a point, if there are any. -/
def fractionDigits? : Text → Option (Text × Text)
  | '.' :: rest => digits? isDecimal rest
  | _ => none

/-- A sign, if there is one; the result is true for minus. -/
def readSign : Text → Bool × Text
  | '-' :: rest => (true, rest)
  | '+' :: rest => (false, rest)
  | text => (false, text)

/-- An exponent, if there is one. -/
def exponent? : Text → Option (Int × Text)
  | c :: rest =>
    if c = 'e' ∨ c = 'E' then
      let (negative, rest) := readSign rest
      (digits? isDecimal rest).map fun (ds, rest) =>
        let n : Int := valueOf 10 ds
        (if negative then -n else n, rest)
    else none
  | [] => none

/-- A decimal number. With a fraction or an exponent it is no whole number. -/
def decimalNumber? (text : Text) : Option (Except Fault Datum × Text) := do
  let (negative, rest) := readSign text
  let (whole, rest) ← wholeDigits? rest
  let (fraction, rest) := (fractionDigits? rest).getD ([], rest)
  match exponent? rest with
  | some (exponent, rest) =>
    return (.ok (.float (.ofDecimal negative (valueOf 10 (whole ++ fraction))
      (exponent - fraction.length))), rest)
  | none =>
    if fraction ≠ [] then
      return (.ok (.float (.ofDecimal negative (valueOf 10 (whole ++ fraction))
        (-(fraction.length : Int)))), rest)
    else if Text.digitLimit < whole.length then return (.error (.tooManyDigits whole.length), rest)
    else
      let n : Int := valueOf 10 whole
      return (.ok (.int (if negative then -n else n)), rest)

/-- The numbers that are written as words. -/
def wordNumber? (text : Text) : Option (Datum × Text) :=
  let (negative, rest) := readSign text
  if rest.take 3 = "inf".toList then some (.float (.infinite negative), rest.drop 3)
  else if rest.take 3 = "nan".toList then some (.float .undefined, rest.drop 3)
  else none

/-- A number of two digits from the first to the last. -/
def twoDigits? (first last : Nat) (text : Text) : Option (Nat × Text) :=
  let digits := text.take 2
  let n := valueOf 10 digits
  if digits.length = 2 ∧ digits.all isDecimal ∧ first ≤ n ∧ n ≤ last then some (n, text.drop 2)
  else none

/-- What follows a character. -/
def after? (c : Char) : Text → Option Text
  | d :: rest => if c = d then some rest else none
  | [] => none

/-- What follows a time of day. -/
def afterTime? (text : Text) : Option Text := do
  let (_, rest) ← twoDigits? 0 23 text
  let (_, rest) ← twoDigits? 0 59 (← after? ':' rest)
  let (_, rest) ← twoDigits? 0 59 (← after? ':' rest)
  match rest with
  | '.' :: c :: more => if isDecimal c then return more.dropWhile isDecimal else return rest
  | _ => return rest

/-- What follows the distance from universal time, if there is one. -/
def afterOffset (text : Text) : Text :=
  match text with
  | 'Z' :: rest => rest
  | 'z' :: rest => rest
  | c :: rest =>
    if c = '+' ∨ c = '-' then
      let after := do
        let (_, rest) ← twoDigits? 0 23 rest
        let (_, rest) ← twoDigits? 0 59 (← after? ':' rest)
        return rest
      after.getD text
    else text
  | [] => []

/-- The number of days of a month. -/
def daysOf (year month : Nat) : Nat :=
  if month = 2 then
    if year % 4 = 0 ∧ (year % 100 ≠ 0 ∨ year % 400 = 0) then 29 else 28
  else if month ∈ [4, 6, 9, 11] then 30 else 31

/-- What follows a blank or a letter and a time of day and perhaps its distance from universal
time, after a date. -/
def afterDayTime? : Text → Option Text
  | c :: rest =>
    if c = 'T' ∨ c = 't' ∨ c = ' ' then (afterTime? rest).map afterOffset else none
  | [] => none

/-- A date, with or without a time of day. A day that its month does not have is malformed. -/
def date? (text : Text) : Option (Except Fault Datum × Text) := do
  let digits := text.take 4
  if !(digits.length = 4 && digits.all isDecimal) then none
  let year := valueOf 10 digits
  let (month, rest) ← twoDigits? 1 12 (← after? '-' (text.drop 4))
  let (day, rest) ← twoDigits? 1 31 (← after? '-' rest)
  let (kind, rest) := match afterDayTime? rest with
    | some rest => ("datetime.datetime".toList, rest)
    | none => ("datetime.date".toList, rest)
  let spelling := text.take (text.length - rest.length)
  return (if year = 0 ∨ daysOf year month < day then .error .malformed
    else .ok (.foreign kind spelling), rest)

/-- A time of day. -/
def time? (text : Text) : Option (Datum × Text) :=
  (afterTime? text).map fun rest =>
    (.foreign "datetime.time".toList (text.take (text.length - rest.length)), rest)

/-- The words for truth values. -/
def bool? (text : Text) : Option (Datum × Text) :=
  if text.take 4 = "true".toList then some (.bool true, text.drop 4)
  else if text.take 5 = "false".toList then some (.bool false, text.drop 5)
  else none

/-- A number, a date or a time of day. -/
def readNumber (text : Text) : Except Fault (Datum × Text) :=
  match date? text with
  | some (value, rest) => value.map (·, rest)
  | none =>
    match time? text <|> basedNumber? text with
    | some found => .ok found
    | none =>
      match decimalNumber? text with
      | some (value, rest) => value.map (·, rest)
      | none =>
        match wordNumber? text with
        | some found => .ok found
        | none => .error .malformed

end SourceLoom.Toml
