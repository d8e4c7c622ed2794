/-!
# Sets of code points

A set of code points is written as its closed ranges, in increasing order.
-/

namespace SourceLoom.Text

/-- A set of code points, as closed ranges. -/
abbrev CodePointSet := List (Nat × Nat)

namespace CodePointSet

/-- Whether a code point lies in one of the ranges. -/
def has (set : CodePointSet) (n : Nat) : Bool :=
  set.any fun range => range.1 ≤ n && n ≤ range.2

/-- A code point is in the set exactly when some range holds it. -/
theorem has_iff (set : CodePointSet) (n : Nat) :
    set.has n = true ↔ ∃ range ∈ set, range.1 ≤ n ∧ n ≤ range.2 := by
  simp [has]

end CodePointSet

end SourceLoom.Text
