import SourceLoom.Text.Blank
import SourceLoom.Text.Word

/-!
# Numerals

Whole numbers as texts: plain decimal, decimal in groups of three, and the reading of a numeral
that may carry a sign, single low lines between digits, digits of any script and blanks around it.
-/

namespace SourceLoom.Text

/-- A natural number in decimal. -/
def ofNat (n : Nat) : Text := Nat.toDigits 10 n

/-- A whole number in decimal, with a minus sign below zero. -/
def ofInt : Int → Text
  | .ofNat n => ofNat n
  | .negSucc n => '-' :: ofNat (n + 1)

/-- A comma after every third digit, counted from the end of a reversed digit list. -/
def groupReversed : Text → Text
  | a :: b :: c :: d :: rest => a :: b :: c :: ',' :: groupReversed (d :: rest)
  | digits => digits

/-- A whole number in decimal with commas between groups of three digits. -/
def grouped : Int → Text
  | .ofNat n => (groupReversed (ofNat n).reverse).reverse
  | .negSucc n => '-' :: (groupReversed (ofNat (n + 1)).reverse).reverse

/-- The value of a list of digits, in their order. -/
def valueOfDigits (base : Nat) (digits : List Nat) : Nat :=
  digits.foldl (fun value digit => value * base + digit) 0

/-- The digits of a numeral in which single low lines may stand between digits. -/
def digitsOf? : (text : Text) → Option (List Nat)
  | [] => none
  | [c] => (digit? c).map ([·])
  | c :: '_' :: rest => do
    let value ← digit? c
    let values ← digitsOf? rest
    return value :: values
  | c :: rest => do
    let value ← digit? c
    let values ← digitsOf? rest
    return value :: values

/-- The most digits that a numeral may have. -/
def digitLimit : Nat := 4300

/-- The complaint about a numeral with more digits than that. -/
def digitComplaint (count : Nat) : Text :=
  "Exceeds the limit (".toList ++ ofNat digitLimit ++
    " digits) for integer string conversion: value has ".toList ++ ofNat count ++
    " digits; use sys.set_int_max_str_digits() to increase the limit".toList

/-- A numeral without sign. -/
def toNat? (text : Text) : Option Nat := do
  let digits ← digitsOf? text
  if digits.length ≤ digitLimit then return valueOfDigits 10 digits else none

/-- A numeral without what may surround it. In a text of ASCII alone the separators U+001C to
U+001F do not surround a numeral; elsewhere every blank does. -/
def trimNumeral (text : Text) : Text :=
  let mayTrim := fun c : Char =>
    if text.all (·.toNat < 128) then isBlank c && !(0x1C ≤ c.toNat && c.toNat ≤ 0x1F)
    else isBlank c
  ((text.dropWhile mayTrim).reverse.dropWhile mayTrim).reverse

/-- A numeral with an optional sign and blanks around it. -/
def toInt? (text : Text) : Option Int :=
  match trimNumeral text with
  | '-' :: rest => (toNat? rest).map fun n => -(n : Int)
  | '+' :: rest => (toNat? rest).map fun n => (n : Int)
  | rest => (toNat? rest).map fun n => (n : Int)

end SourceLoom.Text
