import SourceLoom.Proofs.Scan.Frozen
import SourceLoom.Run.Rehearsal

/-!
# Questions in a rehearsal

Some parts of a run only ask the file tree: they say nothing and change nothing. A scan is such a
part, and so its outcome in a rehearsal is its outcome on the tree as it is. Other parts also say
something; two trees are alike to them if they say the same and end the same on both.
-/

namespace SourceLoom.Run.Rehearsal

open Files

variable {ε α β : Type}

/-- One part of a run goes on from where another one ended, unless that one failed. -/
theorem run_bind {σ : Type} (x : ExceptT ε (StateM σ) α) (f : α → ExceptT ε (StateM σ) β)
    (state : σ) :
    (x >>= f).run.run state =
      match x.run.run state with
      | (.ok a, later) => (f a).run.run later
      | (.error e, later) => (.error e, later) := by
  rw [ExceptT.run_bind, StateT.run_bind]
  rcases x.run.run state with ⟨answer, later⟩
  cases answer <;> rfl

/-- Two parts of a run that succeed one after the other both succeed. -/
theorem run_bind_eq_ok {x : ExceptT ε (StateM Rehearsal) α}
    {f : α → ExceptT ε (StateM Rehearsal) β} {rehearsal last : Rehearsal} {b : β}
    (h : (x >>= f).run.run rehearsal = (.ok b, last)) :
    ∃ a later, x.run.run rehearsal = (.ok a, later) ∧ (f a).run.run later = (.ok b, last) := by
  rw [run_bind] at h
  rcases hx : x.run.run rehearsal with ⟨answer, later⟩
  rw [hx] at h
  cases answer with
  | error e => cases h
  | ok a => exact ⟨a, later, rfl, h⟩

/-- A part of a run asks the tree for an answer, says nothing and changes nothing. -/
def Asks (x : ExceptT ε (StateM Rehearsal) α) (answer : Tree → ExceptT ε Id α) : Prop :=
  ∀ rehearsal, x.run.run rehearsal = (answer rehearsal.tree, rehearsal)

namespace Asks

/-- A question whose fault ends the run. -/
theorem run_need {x : ExceptT Fault (StateM Rehearsal) α} {answer : Tree → ExceptT Fault Id α}
    (h : Asks x answer) (rehearsal : Rehearsal) :
    (Run.need x).run.run rehearsal =
      (Except.mapError (fun fault => .broken (.files fault)) (answer rehearsal.tree),
        rehearsal) := by
  change (Except.mapError _ (x.run.run rehearsal).1, (x.run.run rehearsal).2) = _
  rw [h]

/-- A question that had to be answered was answered. -/
theorem of_need {x : ExceptT Fault (StateM Rehearsal) α} {answer : Tree → ExceptT Fault Id α}
    (h : Asks x answer) {rehearsal later : Rehearsal} {a : α}
    (hrun : (Run.need x).run.run rehearsal = (.ok a, later)) :
    answer rehearsal.tree = pure a ∧ later = rehearsal := by
  rw [h.run_need] at hrun
  cases hanswer : answer rehearsal.tree with
  | error fault =>
    rw [hanswer] at hrun
    cases hrun
  | ok b =>
    rw [hanswer] at hrun
    cases hrun
    exact ⟨rfl, rfl⟩

end Asks

/-- Whether a path leads to a directory is a question. -/
theorem asks_isDirectory (cwd path : Path) :
    Asks ((host cwd).files.isDirectory path) fun tree => tree.frozen.isDirectory path :=
  fun _ => rfl

/-- A scan asks the tree, and its outcome is what it is on the tree as it is. -/
theorem asks_filesBelow (cwd : Path) (excluded : List Name) (levels : Nat) (directory : Path) :
    Asks (Scan.filesBelow (host cwd).files excluded levels directory)
      fun tree => Scan.filesBelow tree.frozen excluded levels directory := by
  intro rehearsal
  have hmirrors : Scan.Mirrors (host cwd).files rehearsal rehearsal.tree :=
    ⟨fun _ => rfl, fun _ => rfl, fun _ => rfl, fun _ => rfl⟩
  exact hmirrors.run_filesBelow excluded levels directory

end SourceLoom.Run.Rehearsal
