import Mathlib.Data.Char
import Mathlib.Data.List.Lex
import Mathlib.Order.Lattice
import SourceLoom.Text

/-!
# The order of texts

The order by the first differing code point is the lexicographic order, and it is linear. So there
is only one way to sort texts, and leaving some out before or after sorting is the same.
-/

namespace SourceLoom.Text

/-- One text comes before another in the lexicographic order. -/
theorem before_iff {s t : Text} : before s t = true ↔ s < t := by
  induction s generalizing t with
  | nil => cases t <;> simp [before]
  | cons a s ih =>
    cases t with
    | nil => simp [before]
    | cons b t =>
      rw [before, List.cons_lt_cons_iff]
      split
      · rename_i hab
        rw [ih, hab]
        simp
      · rename_i hab
        rw [decide_eq_true_eq]
        exact ⟨Or.inl, fun h => h.resolve_right fun h => hab h.1⟩

/-- One text comes before another or equals it in the lexicographic order. -/
theorem beforeOrEqual_iff {s t : Text} : beforeOrEqual s t = true ↔ s ≤ t := by
  rw [beforeOrEqual, Bool.not_eq_true', ← not_lt, ← before_iff, Bool.not_eq_true]

/-- Sorted texts are in increasing order. -/
theorem sort_pairwise (texts : List Text) : (sort texts).Pairwise (· ≤ ·) := by
  have htrans : ∀ s t u : Text, beforeOrEqual s t = true → beforeOrEqual t u = true →
      beforeOrEqual s u = true := fun s t u hst htu =>
    beforeOrEqual_iff.mpr ((beforeOrEqual_iff.mp hst).trans (beforeOrEqual_iff.mp htu))
  have htotal : ∀ s t : Text, (beforeOrEqual s t || beforeOrEqual t s) = true := fun s t => by
    rw [Bool.or_eq_true, beforeOrEqual_iff, beforeOrEqual_iff]
    exact le_total s t
  exact (List.pairwise_mergeSort htrans htotal texts).imp beforeOrEqual_iff.mp

/-- Sorting keeps the texts. -/
theorem sort_perm (texts : List Text) : (sort texts).Perm texts := List.mergeSort_perm texts _

/-- The sorted texts are the texts. -/
theorem mem_sort {text : Text} {texts : List Text} : text ∈ sort texts ↔ text ∈ texts :=
  (sort_perm texts).mem_iff

/-- Different texts are sorted in strictly increasing order. -/
theorem sort_pairwise_lt {texts : List Text} (h : texts.Nodup) :
    (sort texts).Pairwise (· < ·) := by
  have hdistinct : (sort texts).Nodup := (sort_perm texts).nodup_iff.mpr h
  exact (sort_pairwise texts).imp₂ (fun _ _ hle hne => lt_of_le_of_ne hle hne) hdistinct

/-- Texts that are left out may be left out before sorting. -/
theorem filter_sort (keep : Text → Bool) (texts : List Text) :
    (sort texts).filter keep = sort (texts.filter keep) := by
  have hperm : ((sort texts).filter keep).Perm (sort (texts.filter keep)) :=
    ((sort_perm texts).filter keep).trans (sort_perm _).symm
  exact hperm.eq_of_pairwise (fun s t _ _ hst hts => le_antisymm hst hts)
    ((sort_pairwise texts).filter keep) (sort_pairwise _)

end SourceLoom.Text
