import SourceLoom.Text.Blank

/-!
# Removing blanks

Three ways to do without blanks: drop the blank lines, strip every line too, or join all lines
into one and keep only the single spaces that stand between two other characters, none of them
a mark of punctuation.
-/

namespace SourceLoom.Minify

/-- The lines of a text that are not blank, as they stand. -/
def withoutBlankLines (text : Text) : Text :=
  Text.join ['\n'] ((Text.splitOn '\n' text).filter fun line => Text.strip line ≠ [])

/-- The stripped lines of a text that are not blank. -/
def strippedLines (text : Text) : Text :=
  Text.join ['\n'] (((Text.splitOn '\n' text).map Text.strip).filter (· ≠ []))

/-- A single space for every run of blanks; `inRun` tells that a run has begun. -/
def squeeze : (inRun : Bool) → Text → Text
  | _, [] => []
  | inRun, c :: rest =>
    if Text.isBlank c then
      if inRun then squeeze true rest else ' ' :: squeeze true rest
    else c :: squeeze false rest

/-- Whether a character is a mark of punctuation that needs no blanks around it. -/
def isMark (c : Char) : Bool := c ∈ ['\x7b', '\x7d', '(', ')', ';', ',']

/-- Removes the blanks next to marks. `pending` holds the blanks just passed, nearest first, and
`afterMark` tells whether a mark came before them. -/
def tighten : (afterMark : Bool) → (pending : List Char) → Text → Text
  | afterMark, pending, [] => if afterMark then [] else pending.reverse
  | afterMark, pending, c :: rest =>
    if Text.isBlank c then tighten afterMark (c :: pending) rest
    else if isMark c then c :: tighten true [] rest
    else (if afterMark then [] else pending.reverse) ++ c :: tighten false [] rest

/-- Removes each semicolon that only blanks separate from a closing brace, and those blanks;
`dropping` tells that such blanks are being passed. -/
def dropSemicolons : (dropping : Bool) → Text → Text
  | _, [] => []
  | dropping, c :: rest =>
    if dropping ∧ Text.isBlank c then dropSemicolons true rest
    else if c = ';' ∧ (Text.stripLeft rest).head? = some '\x7d' then dropSemicolons true rest
    else c :: dropSemicolons false rest

/-- A text on one line, without the blanks and semicolons that punctuation makes needless. -/
def collapse (text : Text) : Text :=
  Text.strip (dropSemicolons false (tighten false [] (squeeze false text)))

end SourceLoom.Minify
