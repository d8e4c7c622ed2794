import SourceLoom.Json.Basic
import SourceLoom.Text.Numeral
import SourceLoom.Text.Quoted

/-!
# Writing JSON

Two layouts of one writer: the compact one without any space, which keeps every character that
may stand in a string, and the one of reports, which is ASCII alone and may put each item on a
line of its own.
-/

namespace SourceLoom.Json

/-- How numbers that are not whole are written: the fewest digits that read back, with an exponent
below one ten-thousandth and from ten to the power of sixteen on. -/
def numberLayout : Decimal.Layout where
  greatestPoint := 16
  leastPoint := -3
  exponentDigits := 2
  keepsZero := true
  infinity := "Infinity".toList
  undefined := "NaN".toList

/-- How a value is laid out. -/
structure Layout where
  /-- What stands between two items. -/
  itemSeparator : Text
  /-- What stands between a name and its value. -/
  nameSeparator : Text
  /-- The indentation of one level, if every item has its own line. -/
  indentation : Option Text
  /-- Whether characters beyond ASCII are written as escapes. -/
  asciiOnly : Bool

namespace Layout

/-- No space at all. -/
def compact : Layout := ⟨[','], [':'], none, false⟩

/-- One line with a space after every separator. -/
def line : Layout := ⟨", ".toList, ": ".toList, none, true⟩

/-- A line for every item, indented by so many spaces for each level; no number of spaces is
less than none. -/
def indented (spaces : Int) : Layout :=
  ⟨[','], ": ".toList, some (List.replicate spaces.toNat ' '), true⟩

/-- What comes before an item at a level. -/
def newline (layout : Layout) (level : Nat) : Text :=
  match layout.indentation with
  | none => []
  | some unit => '\n' :: (List.replicate level unit).flatten

end Layout

/-- A character beyond U+FFFF is escaped as two halves, every other as one number. -/
def numberEscaped (c : Char) : Text :=
  if c.toNat < 0x10000 then '\\' :: 'u' :: Text.hex 4 c.toNat
  else
    let n := c.toNat - 0x10000
    '\\' :: 'u' :: Text.hex 4 (0xD800 + n / 0x400) ++
      '\\' :: 'u' :: Text.hex 4 (0xDC00 + n % 0x400)

/-- One character of a string. -/
def writtenChar (asciiOnly : Bool) (c : Char) : Text :=
  if c = '"' then ['\\', '"']
  else if c = '\\' then ['\\', '\\']
  else if c = '\n' then ['\\', 'n']
  else if c = '\r' then ['\\', 'r']
  else if c = '\t' then ['\\', 't']
  else if c = '\x0C' then ['\\', 'f']
  else if c = '\x08' then ['\\', 'b']
  else if c.toNat < 0x20 ∨ (asciiOnly ∧ 0x7E < c.toNat) then numberEscaped c
  else [c]

/-- A string in quotes. -/
def writtenString (asciiOnly : Bool) (text : Text) : Text :=
  '"' :: text.flatMap (writtenChar asciiOnly) ++ ['"']

mutual

/-- The text of a value at a level. -/
def write (layout : Layout) (level : Nat) : Json → Text
  | null => "null".toList
  | bool true => "true".toList
  | bool false => "false".toList
  | int n => Text.ofInt n
  | float x => x.toText numberLayout
  | string text => writtenString layout.asciiOnly text
  | array [] => "[]".toList
  | array (item :: items) =>
    '[' :: layout.newline (level + 1) ++ write layout (level + 1) item ++
      writeItems layout level items
  | object [] => ['{', '}']
  | object ((name, value) :: members) =>
    '{' :: layout.newline (level + 1) ++ writtenString layout.asciiOnly name ++
      layout.nameSeparator ++ write layout (level + 1) value ++ writeMembers layout level members

/-- The text of the items after the first, and the closing bracket. -/
def writeItems (layout : Layout) (level : Nat) : List Json → Text
  | [] => layout.newline level ++ [']']
  | item :: items =>
    layout.itemSeparator ++ layout.newline (level + 1) ++ write layout (level + 1) item ++
      writeItems layout level items

/-- The text of the members after the first, and the closing brace. -/
def writeMembers (layout : Layout) (level : Nat) : List (Text × Json) → Text
  | [] => layout.newline level ++ ['}']
  | (name, value) :: members =>
    layout.itemSeparator ++ layout.newline (level + 1) ++ writtenString layout.asciiOnly name ++
      layout.nameSeparator ++ write layout (level + 1) value ++ writeMembers layout level members

end

/-- The text of a value. -/
def toText (layout : Layout) (value : Json) : Text := write layout 0 value

end SourceLoom.Json
