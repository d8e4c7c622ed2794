import Mathlib.Algebra.Order.BigOperators.Group.List
import Mathlib.Algebra.Order.Group.Int
import SourceLoom.Proofs.Json.Growth
import SourceLoom.Proofs.Minify.Levels
import SourceLoom.Proofs.Minify.Removal

/-!
# How long minified files are

No file is longer when it is minified, but for JSON whose fractions grow: comments and blanks are
only removed, and JSON that cannot be read is kept. A number such as `1e5`, which is written anew as
`100000.0`, makes a file longer that has nothing else to lose.
-/

namespace SourceLoom.Minify

/-- By how much the fractions of a file grow when it is minified. -/
def growth (path : Path) (content : Text) : Int :=
  match Family.ofEnding (ending path), Json.read Text.digitLimit content with
  | .data, .ok _ => Json.growth content
  | _, _ => 0

/-- Only files of JSON that are read grow. -/
theorem growth_of_ne_data {path : Path} (h : Family.ofEnding (ending path) ≠ .data)
    (content : Text) : growth path content = 0 := by
  rw [growth]
  split
  · rename_i hfamily _
    exact absurd hfamily h
  · rfl

/-- Comments are only removed, and JSON that is written anew is longer by no more than its fractions
grow. -/
theorem length_withoutComments_le {path : Path} {content bare : Text}
    (h : withoutComments (.ofEnding (ending path)) content = .ok bare) :
    (bare.length : Int) ≤ content.length + growth path content := by
  have hkept (hdata : Family.ofEnding (ending path) ≠ .data)
      (hshort : bare.length ≤ content.length) :
      (bare.length : Int) ≤ content.length + growth path content := by
    rw [growth_of_ne_data hdata]
    omega
  cases hfamily : Family.ofEnding (ending path) with
  | script =>
    rw [hfamily] at h hkept
    cases h
    have hblocks := (dropBetween_sublist "/*".toList "*/".toList 0 (withoutLineComments content))
    have hlines := dropLineComments_sublist false '\n' content
    exact hkept nofun (hblocks.trans hlines).length_le
  | style =>
    rw [hfamily] at h hkept
    cases h
    exact hkept nofun (dropBetween_sublist _ _ 0 content).length_le
  | markup =>
    rw [hfamily] at h hkept
    cases h
    exact hkept nofun (dropBetween_sublist _ _ 0 content).length_le
  | other =>
    rw [hfamily] at h hkept
    cases h
    exact hkept nofun (Nat.le_refl _)
  | data =>
    rw [hfamily, withoutComments, rewritten] at h
    rw [growth, hfamily]
    cases hread : Json.read Text.digitLimit content with
    | ok value =>
      rw [hread] at h
      cases h
      exact Json.length_toText_le hread
    | error fault =>
      rw [hread] at h
      dsimp only at h ⊢
      split at h
      · cases h
      · cases h
        exact (Int.add_zero _).ge

/-- A minified file is longer by no more than its fractions grow. -/
theorem length_minify_le {content output : Text} {path : Path} {level : Level}
    (h : minify content path level = .ok output) :
    (output.length : Int) ≤ content.length + growth path content := by
  obtain ⟨bare, hbare, rfl⟩ := bare_of_minify h
  have hlength := length_withoutComments_le hbare
  obtain ⟨haggressive, hmedium, hlight⟩ := length_withoutBlanks_le (ending path) bare
  have hlevel : (withoutBlanks level (ending path) bare).length ≤ bare.length := by
    cases level with
    | light => exact hlight
    | medium => exact hmedium.trans hlight
    | aggressive => exact haggressive.trans (hmedium.trans hlight)
  omega

/-- A token that grows is a fraction that is longer when it is written anew. -/
theorem exists_fraction {token : Text} (h : 0 < Json.growthOf token) :
    ∃ x, Json.scalar none token = .ok (.float x, []) ∧
      token.length < (x.toText Json.numberLayout).length := by
  rw [Json.growthOf] at h
  split at h
  · rename_i x hx
    exact ⟨x, hx, by omega⟩
  · cases h

/-- A file that is longer when it is minified is JSON with a fraction that is longer when it is
written anew. -/
theorem exists_fraction_of_longer {path : Path} {content output : Text} {level : Level}
    (h : minify content path level = .ok output) (hlonger : content.length < output.length) :
    Family.ofEnding (ending path) = .data ∧
      (∃ value, Json.read Text.digitLimit content = .ok value) ∧
      ∃ token ∈ Json.tokens content, ∃ x, Json.scalar none token = .ok (.float x, []) ∧
        token.length < (x.toText Json.numberLayout).length := by
  have hlength := length_minify_le h
  have hgrowth : 0 < growth path content := by omega
  rw [growth] at hgrowth
  split at hgrowth
  · rename_i value hfamily hread
    have hsum : ((Json.tokens content).map fun _ => (0 : Int)).sum <
        ((Json.tokens content).map Json.growthOf).sum := by
      rw [List.sum_map_zero]
      exact hgrowth
    obtain ⟨token, htoken, hpositive⟩ := List.exists_lt_of_sum_lt _ _ hsum
    exact ⟨hfamily, ⟨value, hread⟩, token, htoken, exists_fraction hpositive⟩
  · cases hgrowth

end SourceLoom.Minify
