import SourceLoom.Text
import SourceLoom.Text.Visible

/-!
# Quoted text

The quoted form of a text stands in messages wherever a reader must see its exact characters. It
is enclosed in apostrophes, or in double quotes when the text holds an apostrophe and no double
quote. The enclosing quote and the backslash are preceded by a backslash, and a character that is
not visible is written as an escape.
-/

namespace SourceLoom.Text

/-- The digits of a number to the base sixteen, with zeros in front up to a width. -/
def hex (width n : Nat) : Text :=
  let digits := Nat.toDigits 16 n
  List.replicate (width - digits.length) '0' ++ digits

/-- The quote that encloses the quoted form of a text. -/
def enclosingQuote (text : Text) : Char :=
  if text.contains '\'' && !text.contains '"' then '"' else '\''

/-- One character of a quoted form. -/
def quotedChar (quote c : Char) : Text :=
  if c = quote || c = '\\' then ['\\', c]
  else if c = '\t' then ['\\', 't']
  else if c = '\n' then ['\\', 'n']
  else if c = '\r' then ['\\', 'r']
  else if isVisible c then [c]
  else if c.toNat < 0x100 then '\\' :: 'x' :: hex 2 c.toNat
  else if c.toNat < 0x10000 then '\\' :: 'u' :: hex 4 c.toNat
  else '\\' :: 'U' :: hex 8 c.toNat

/-- The quoted form of a text. -/
def quoted (text : Text) : Text :=
  let quote := enclosingQuote text
  quote :: text.flatMap (quotedChar quote) ++ [quote]

end SourceLoom.Text
