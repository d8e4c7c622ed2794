import Mathlib.Data.List.Basic
import Mathlib.Data.List.Nodup

/-!
# Dropping repetitions

A list whose repetitions are dropped has none left, a list without repetitions stays as it is, and
of a list with a single member, however often, that member is left.
-/

namespace SourceLoom

variable {α : Type} [BEq α] [LawfulBEq α]

/-- Dropping repetitions changes nothing where there are none. -/
theorem eraseDups_of_nodup {l : List α} (h : l.Nodup) : l.eraseDups = l := by
  induction l with
  | nil => rfl
  | cons x l ih =>
    obtain ⟨hx, hl⟩ := List.nodup_cons.mp h
    have hkeep : l.filter (fun y => !y == x) = l := by
      rw [List.filter_eq_self]
      intro y hy
      rw [Bool.not_eq_true', beq_eq_false_iff_ne]
      rintro rfl
      exact hx hy
    rw [List.eraseDups_cons, hkeep, ih hl]

/-- Dropping repetitions leaves none. -/
theorem nodup_eraseDups (l : List α) : l.eraseDups.Nodup := by
  induction hlength : l.length using Nat.strongRecOn generalizing l with
  | _ n ih =>
    cases l with
    | nil => exact List.nodup_nil
    | cons x l =>
      have hshorter : (l.filter fun y => !y == x).length < n := by
        have hle := List.length_filter_le (fun y => !y == x) l
        rw [List.length_cons] at hlength
        omega
      rw [List.eraseDups_cons, List.nodup_cons, List.mem_eraseDups, List.mem_filter]
      refine ⟨fun hx => ?_, ih _ hshorter _ rfl⟩
      rw [beq_self_eq_true] at hx
      cases hx.2

/-- One more member stays, at the end, unless it was there before. -/
theorem eraseDups_concat (l : List α) (x : α) :
    (l ++ [x]).eraseDups = if x ∈ l then l.eraseDups else l.eraseDups ++ [x] := by
  rw [List.eraseDups_append]
  split
  · rename_i hx
    have hnone : [x].removeAll l = [] := by simp [List.removeAll, hx]
    rw [hnone, List.eraseDups_nil, List.append_nil]
  · rename_i hx
    have hkeep : [x].removeAll l = [x] := by simp [List.removeAll, hx]
    rw [hkeep]
    rfl

/-- Of a single member, however often it comes, one is left. -/
theorem eraseDups_eq_singleton {x : α} {l : List α} (hx : x ∈ l) (hall : ∀ y ∈ l, y = x) :
    l.eraseDups = [x] := by
  obtain ⟨y, others, rfl⟩ := List.exists_cons_of_ne_nil (List.ne_nil_of_mem hx)
  obtain ⟨rfl, hothers⟩ := List.forall_mem_cons.mp hall
  have hnone : others.filter (fun other => !other == y) = [] := by
    refine List.filter_eq_nil_iff.mpr fun other hother => ?_
    rw [hothers other hother, beq_self_eq_true]
    exact Bool.false_ne_true
  rw [List.eraseDups_cons, hnone]
  rfl

end SourceLoom
