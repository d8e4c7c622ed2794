import SourceLoom.Text
import SourceLoom.Text.CodePointSet

/-!
# Blanks and line breaks

A blank is a character of Unicode's white space or one of the four separators U+001C to U+001F.
Stripping removes the blanks at both ends of a text and none inside it. A text is cut into lines
at each of ten line breaks, a carriage return followed by a line feed counting as one break.
-/

namespace SourceLoom.Text

/-- The blank code points. -/
def blanks : CodePointSet :=
  [(0x9, 0xD), (0x1C, 0x20), (0x85, 0x85), (0xA0, 0xA0), (0x1680, 0x1680), (0x2000, 0x200A),
   (0x2028, 0x2029), (0x202F, 0x202F), (0x205F, 0x205F), (0x3000, 0x3000)]

/-- Whether a character is blank. -/
def isBlank (c : Char) : Bool := blanks.has c.toNat

/-- A text without the blanks it begins with. -/
def stripLeft (text : Text) : Text := text.dropWhile isBlank

/-- A text without the blanks it ends with. -/
def stripRight (text : Text) : Text := (text.reverse.dropWhile isBlank).reverse

/-- A text without the blanks at either end. -/
def strip (text : Text) : Text := stripRight (stripLeft text)

/-- The code points that end a line. -/
def lineBreaks : CodePointSet :=
  [(0xA, 0xD), (0x1C, 0x1E), (0x85, 0x85), (0x2028, 0x2029)]

/-- Whether a character ends a line. -/
def isLineBreak (c : Char) : Bool := lineBreaks.has c.toNat

/-- The lines of a text without their breaks; nothing follows a break at the very end. -/
def lines : Text → List Text
  | [] => []
  | '\r' :: '\n' :: rest => [] :: lines rest
  | c :: rest =>
    if isLineBreak c then [] :: lines rest
    else match lines rest with
      | [] => [[c]]
      | line :: more => (c :: line) :: more

/-- A text whose carriage returns, alone or before a line feed, have become line feeds. -/
def unifyNewlines : Text → Text
  | [] => []
  | '\r' :: '\n' :: rest => '\n' :: unifyNewlines rest
  | c :: rest => (if c = '\r' then '\n' else c) :: unifyNewlines rest

end SourceLoom.Text
