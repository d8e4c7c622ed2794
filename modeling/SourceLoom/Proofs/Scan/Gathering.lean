import Mathlib.Data.List.Basic
import SourceLoom.Scan

/-!
# Gathering files

What is gathered from the entries of a directory is gathered from each of them. So files that are
to be left out may be left out of what each entry gives, and an entry that gives no others need not
be visited.
-/

namespace SourceLoom.Scan

variable {m : Type → Type} [Monad m] [LawfulMonad m]
variable {visit other : Name → Path → ExceptT Files.Fault m (List Path)} {directory : Path}
variable {names : List Name} (keep : Path → Bool)

/-- Files that are to be left out may be left out of what each entry gives. -/
theorem filter_gather_cons (name : Name) :
    (·.filter keep) <$> gather visit directory (name :: names) = do
      let here ← (·.filter keep) <$> visit name (directory.entry name)
      let more ← (·.filter keep) <$> gather visit directory names
      return here ++ more := by
  simp only [gather, map_bind, map_pure, bind_map_left, List.filter_append]

/-- Two ways to visit the entries gather the same files but for some that are left out, if they do
so for each entry. -/
theorem filter_gather_congr
    (h : ∀ name ∈ names, (·.filter keep) <$> visit name (directory.entry name) =
      (·.filter keep) <$> other name (directory.entry name)) :
    (·.filter keep) <$> gather visit directory names =
      (·.filter keep) <$> gather other directory names := by
  induction names with
  | nil => rfl
  | cons name names ih =>
    rw [filter_gather_cons, filter_gather_cons, h name List.mem_cons_self,
      ih fun name hname => h name (List.mem_cons_of_mem _ hname)]

/-- Entries that only give files that are left out need not be visited. -/
theorem filter_gather_filter (visited : Name → Bool)
    (h : ∀ name ∈ names, visited name = false →
      (·.filter keep) <$> visit name (directory.entry name) = pure []) :
    (·.filter keep) <$> gather visit directory (names.filter visited) =
      (·.filter keep) <$> gather visit directory names := by
  induction names with
  | nil => rfl
  | cons name names ih =>
    have hrest := ih fun name hname => h name (List.mem_cons_of_mem _ hname)
    cases hvisited : visited name with
    | true =>
      rw [List.filter_cons_of_pos hvisited, filter_gather_cons, filter_gather_cons, hrest]
    | false =>
      rw [List.filter_cons_of_neg (by simp [hvisited]), hrest, filter_gather_cons,
        h name List.mem_cons_self hvisited]
      simp only [pure_bind, List.nil_append, bind_pure]

/-- Where every entry gives files or a fault, all of them give their files in order, or one of them
gives the fault that ends the gathering. -/
theorem gather_cases {visit : Name → Path → ExceptT Files.Fault Id (List Path)} {directory : Path}
    {names : List Name} {good : Name → List Path → Prop} {bad : Files.Fault → Prop}
    (h : ∀ name ∈ names,
      (∃ found, visit name (directory.entry name) = pure found ∧ good name found) ∨
        ∃ fault, visit name (directory.entry name) = throw fault ∧ bad fault) :
    (∃ parts : Name → List Path, (∀ name ∈ names, good name (parts name)) ∧
        gather visit directory names = pure (names.flatMap parts)) ∨
      ∃ fault, gather visit directory names = throw fault ∧ bad fault := by
  let parts (name : Name) : List Path :=
    (Except.toOption (visit name (directory.entry name))).getD []
  suffices (∀ name ∈ names, good name (parts name)) ∧
      gather visit directory names = pure (names.flatMap parts) ∨
        ∃ fault, gather visit directory names = throw fault ∧ bad fault from
    this.imp_left fun hgathered => ⟨parts, hgathered⟩
  induction names with
  | nil => exact Or.inl ⟨nofun, rfl⟩
  | cons name names ih =>
    rcases h name List.mem_cons_self with ⟨found, hfound, hgood⟩ | ⟨fault, hfault, hbad⟩
    · have hparts : parts name = found := by
        change (Except.toOption (visit name (directory.entry name))).getD [] = found
        rw [hfound]
        rfl
      rcases ih fun other hother => h other (List.mem_cons_of_mem _ hother) with
        ⟨hall, hgather⟩ | ⟨fault, hgather, hbad⟩
      · refine Or.inl ⟨List.forall_mem_cons.mpr ⟨hparts ▸ hgood, hall⟩, ?_⟩
        rw [gather, hfound, hgather, List.flatMap_cons, hparts]
        rfl
      · refine Or.inr ⟨fault, ?_, hbad⟩
        rw [gather, hfound, hgather]
        rfl
    · refine Or.inr ⟨fault, ?_, hbad⟩
      rw [gather, hfault]
      rfl

end SourceLoom.Scan
