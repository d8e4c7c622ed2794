import SourceLoom.Proofs.Minify.Outcome
import SourceLoom.Proofs.Text.Solid

/-!
# Levels that only drop blanks

Dropping blank lines and stripping the lines that are kept leaves every solid character of a text,
in its order.
-/

namespace SourceLoom.Minify

open Text

/-- Dropping the blank lines leaves the solid characters. -/
theorem solid_withoutBlankLines (text : Text) : solid (withoutBlankLines text) = solid text := by
  rw [withoutBlankLines, solid_join, flatMap_solid_filter, solid_splitOn]

/-- What is left of the stripped lines are the lines that were not blank, stripped. -/
theorem filter_map_strip (lines : List Text) :
    (lines.map strip).filter (· ≠ []) = (lines.filter fun line => strip line ≠ []).map strip := by
  rw [List.filter_map]
  rfl

/-- Stripping the lines, and dropping the blank ones, leaves the solid characters. -/
theorem solid_strippedLines (text : Text) : solid (strippedLines text) = solid text := by
  rw [strippedLines, filter_map_strip, solid_join, List.flatMap_map]
  simp only [solid_strip]
  rw [flatMap_solid_filter, solid_splitOn]

/-- The levels that only drop blanks leave the solid characters. -/
theorem solid_withoutBlanks {level : Level} (hlevel : level ≠ .aggressive)
    (ending text : Text) : solid (withoutBlanks level ending text) = solid text := by
  cases level with
  | light => exact solid_withoutBlankLines text
  | medium => exact solid_strippedLines text
  | aggressive => exact absurd rfl hlevel

end SourceLoom.Minify
