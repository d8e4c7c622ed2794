import Mathlib.Data.List.DropRight
import SourceLoom.Text.Blank

/-!
# What is not blank in a text

Stripping a text and joining texts by line feeds touches blanks alone: the other characters of a
text, its solid ones, stay as they are and in their order.
-/

namespace SourceLoom.Text

/-- The characters of a text that are not blank. -/
def solid (text : Text) : Text := text.filter fun c => !isBlank c

/-- The solid characters of two texts in a row. -/
@[simp] theorem solid_append (s t : Text) : solid (s ++ t) = solid s ++ solid t :=
  List.filter_append ..

/-- Blanks have no solid characters. -/
theorem solid_eq_nil {text : Text} : solid text = [] ↔ ∀ c ∈ text, isBlank c = true := by
  simp [solid]

/-- Stripping the left end leaves the solid characters. -/
theorem solid_stripLeft (text : Text) : solid (stripLeft text) = solid text := by
  have hblank : solid (text.takeWhile isBlank) = [] :=
    solid_eq_nil.mpr fun c hc => List.mem_takeWhile_imp hc
  calc solid (stripLeft text)
      = solid (text.takeWhile isBlank) ++ solid (text.dropWhile isBlank) := by
        rw [hblank, List.nil_append, stripLeft]
    _ = solid text := by rw [← solid_append, List.takeWhile_append_dropWhile]

/-- The solid characters of a text read backwards. -/
theorem solid_reverse (text : Text) : solid text.reverse = (solid text).reverse :=
  List.filter_reverse ..

/-- Stripping the right end leaves the solid characters. -/
theorem solid_stripRight (text : Text) : solid (stripRight text) = solid text := by
  have hleft := solid_stripLeft text.reverse
  rw [stripLeft, solid_reverse] at hleft
  rw [stripRight, solid_reverse, hleft, List.reverse_reverse]

/-- Stripping leaves the solid characters. -/
@[simp] theorem solid_strip (text : Text) : solid (strip text) = solid text := by
  rw [strip, solid_stripRight, solid_stripLeft]

/-- Nothing is left of a stripped text exactly if it has no solid characters. -/
theorem strip_eq_nil_iff {text : Text} : strip text = [] ↔ solid text = [] := by
  constructor
  · intro h
    rw [← solid_strip, h]
    rfl
  · intro h
    have hall := solid_eq_nil.mp h
    have hleft : stripLeft text = [] := List.dropWhile_eq_nil_iff.mpr hall
    rw [strip, hleft]
    rfl

/-- Joining by line feeds puts the solid characters of the pieces together. -/
theorem solid_join (pieces : List Text) : solid (join ['\n'] pieces) = pieces.flatMap solid := by
  induction pieces with
  | nil => rfl
  | cons piece pieces ih =>
    cases pieces with
    | nil => rw [join, List.flatMap_singleton]
    | cons next pieces =>
      have hfeed : solid ['\n'] = [] := by decide
      rw [join, solid_append, solid_append, hfeed, List.append_nil, ih]
      rfl

/-- The solid characters of a text are those of the pieces between its line feeds. -/
theorem solid_splitOn (text : Text) : (splitOn '\n' text).flatMap solid = solid text := by
  rw [← solid_join, join_splitOn]

/-- Pieces without solid characters may be left out. -/
theorem flatMap_solid_filter (pieces : List Text) :
    (pieces.filter fun piece => strip piece ≠ []).flatMap solid = pieces.flatMap solid := by
  induction pieces with
  | nil => rfl
  | cons piece pieces ih =>
    rw [List.filter_cons, List.flatMap_cons]
    split
    · rw [List.flatMap_cons, ih]
    · rename_i hblank
      rw [decide_eq_true_eq, Decidable.not_not] at hblank
      rw [ih, strip_eq_nil_iff.mp hblank, List.nil_append]

end SourceLoom.Text
