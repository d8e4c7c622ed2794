import SourceLoom.Proofs.Scan.Descent
import SourceLoom.Proofs.Traversal.Questions

/-!
# The first candidate

A reference is resolved by asking of one candidate after another whether it is a regular file. The
first candidate that is not known to be none decides: if it is a regular file, the reference leads
to it, and if it cannot be examined, the resolution fails, also where a later candidate is a regular
file. A reference leads nowhere if no candidate is a regular file and all of them can be examined.
-/

namespace SourceLoom.Reference

open Files

section Search

variable {answer : Path → Except Fault Bool} {paths : List Path} {first path : Path}
  {given : Except Fault Bool}

/-- A path is the first in a list that is not answered with no, and this is its answer. -/
def Decides (answer : Path → Except Fault Bool) (paths : List Path) (path : Path)
    (given : Except Fault Bool) : Prop :=
  ∃ earlier later, paths = earlier ++ path :: later ∧
    (∀ other ∈ earlier, answer other = .ok false) ∧ answer path = given ∧ given ≠ .ok false

/-- What a search among paths comes to. -/
structure Settles (answer : Path → Except Fault Bool) (paths : List Path)
    (outcome : Except Fault (Option Path)) : Prop where
  /-- It finds the path that decides, if that is answered with yes. -/
  found_iff : ∀ path, outcome = .ok (some path) ↔ Decides answer paths path (.ok true)
  /-- It finds nothing if all paths are answered with no. -/
  none_iff : outcome = .ok none ↔ ∀ path ∈ paths, answer path = .ok false
  /-- It fails if the path that decides cannot be examined. -/
  fault_iff : ∀ fault, outcome = .error fault ↔ ∃ path, Decides answer paths path (.error fault)

/-- A path that is not answered with no decides if it is the first. -/
theorem decides_cons_of_ne (hfirst : answer first ≠ .ok false) :
    Decides answer (first :: paths) path given ↔ path = first ∧ answer first = given := by
  constructor
  · rintro ⟨earlier, later, hpaths, hearlier, hgiven, -⟩
    cases earlier with
    | nil =>
      cases hpaths
      exact ⟨rfl, hgiven⟩
    | cons other earlier =>
      cases hpaths
      exact absurd (hearlier first List.mem_cons_self) hfirst
  · rintro ⟨rfl, rfl⟩
    exact ⟨[], paths, rfl, nofun, rfl, hfirst⟩

/-- A path that is answered with no leaves it to the others to decide. -/
theorem decides_cons_of_eq (hfirst : answer first = .ok false) :
    Decides answer (first :: paths) path given ↔ Decides answer paths path given := by
  constructor
  · rintro ⟨earlier, later, hpaths, hearlier, hgiven, hne⟩
    cases earlier with
    | nil =>
      cases hpaths
      exact absurd (hgiven.symm.trans hfirst) hne
    | cons other earlier =>
      cases hpaths
      exact ⟨earlier, later, rfl, (List.forall_mem_cons.mp hearlier).2, hgiven, hne⟩
  · rintro ⟨earlier, later, rfl, hearlier, hgiven, hne⟩
    exact ⟨first :: earlier, later, rfl, List.forall_mem_cons.mpr ⟨hfirst, hearlier⟩, hgiven, hne⟩

/-- A path that is answered with no is none that a search finds or fails at. -/
theorem Settles.cons {outcome : Except Fault (Option Path)} (h : Settles answer paths outcome)
    (hfirst : answer first = .ok false) : Settles answer (first :: paths) outcome where
  found_iff path := by rw [h.found_iff, decides_cons_of_eq hfirst]
  none_iff := by rw [h.none_iff, List.forall_mem_cons, and_iff_right hfirst]
  fault_iff fault := by simp only [h.fault_iff, decides_cons_of_eq hfirst]

/-- Where a test always gives the same answers and changes nothing, so does a search, and it settles
by these answers. -/
theorem firstWhere_settles {σ : Type} {test : Path → ExceptT Fault (StateM σ) Bool} {state : σ}
    (htest : ∀ path, (test path).run.run state = (answer path, state)) (paths : List Path) :
    ∃ outcome, (firstWhere test paths).run.run state = (outcome, state) ∧
      Settles answer paths outcome := by
  induction paths with
  | nil =>
    refine ⟨.ok none, rfl, fun path => ⟨nofun, ?_⟩, ⟨fun _ => nofun, fun _ => rfl⟩,
      fun fault => ⟨nofun, ?_⟩⟩
    · rintro ⟨earlier, later, hpaths, -⟩
      cases earlier <;> cases hpaths
    · rintro ⟨path, earlier, later, hpaths, -⟩
      cases earlier <;> cases hpaths
  | cons first paths ih =>
    rw [Traversal.firstWhere_cons, htest]
    cases hfirst : answer first with
    | error fault =>
      have hne : answer first ≠ .ok false := by simp [hfirst]
      refine ⟨.error fault, rfl, ?_, ?_, ?_⟩
      · simp [decides_cons_of_ne hne, hfirst]
      · simp [hfirst]
      · simp [decides_cons_of_ne hne, hfirst]
    | ok passed =>
      cases passed with
      | true =>
        have hne : answer first ≠ .ok false := by simp [hfirst]
        refine ⟨.ok (some first), rfl, ?_, ?_, ?_⟩
        · simp [decides_cons_of_ne hne, hfirst, eq_comm]
        · simp [hfirst]
        · simp [decides_cons_of_ne hne, hfirst]
      | false =>
        obtain ⟨outcome, hrun, hsettles⟩ := ih
        exact ⟨outcome, hrun, hsettles.cons hfirst⟩

end Search

variable {tree : Tree} {conventions : Conventions} {reference file : Text}

/-- A reference that is no alias names a place, and with the root of a project so does an alias. -/
theorem exists_place (cwd file : Path) (root : Option Path)
    (hroot : conventions.aliasMark <+: reference → root.isSome) :
    ∃ place, place? conventions cwd file root reference = some place := by
  unfold place?
  cases halias : Text.dropLeading? conventions.aliasMark reference with
  | none => exact ⟨_, rfl⟩
  | some rest =>
    have hmark : conventions.aliasMark <+: reference :=
      ⟨rest, (Text.dropLeading?_eq_some_iff.mp halias).symm⟩
    obtain ⟨directory, rfl⟩ := Option.isSome_iff_exists.mp (hroot hmark)
    exact ⟨_, rfl⟩

/-- In a tree a reference names a place, whose candidates are normal paths, and it leads to the
first of them that is a regular file, if all before that can be examined. It leads nowhere if all
can be examined and none is a regular file. The resolution fails at the first candidate that cannot
be examined, if none before that is a regular file. -/
theorem resolve_settles (hcwd : tree.cwd.IsNormal) (hfile : file ≠ []) (hreference : reference ≠ [])
    {root : Option Text} (hroot : conventions.aliasMark <+: reference → root.isSome) :
    ∃ place outcome,
      place? conventions tree.cwd (.ofText file) (root.map .ofText) reference = some place ∧
      (∀ path ∈ candidates conventions tree.cwd place, path.IsNormal) ∧
      (resolve conventions Tree.system.isFile tree.cwd reference file
        (root.map .ofText)).run.run tree = (outcome.mapError Trouble.files, tree) ∧
      Settles tree.isFile (candidates conventions tree.cwd place) outcome := by
  obtain ⟨place, hplace⟩ := exists_place tree.cwd (.ofText file) (root.map .ofText) fun hmark => by
    rw [Option.isSome_map]
    exact hroot hmark
  have hclean : place.IsClean := by
    refine Traversal.place?_isClean hcwd (Path.ofText_isClean file) ?_ hplace
    intro directory hdirectory
    obtain ⟨text, -, rfl⟩ := Option.map_eq_some_iff.mp hdirectory
    exact Path.ofText_isClean text
  have hanswers : ∀ path, (Tree.system.isFile path).run.run tree = (tree.isFile path, tree) :=
    fun _ => rfl
  obtain ⟨outcome, hrun, hsettles⟩ :=
    firstWhere_settles hanswers (candidates conventions tree.cwd place)
  refine ⟨place, outcome, hplace,
    fun path => Traversal.candidates_isNormal hcwd hclean, ?_, hsettles⟩
  rw [Traversal.resolve_run hfile hreference, hplace]
  exact congrArg (fun ended => (ended.1.mapError Trouble.files, ended.2)) hrun

/-- A directory with two files, and with a link that has the name of one of them without its ending
and leads to where nothing may be looked up. -/
def shadowed : Tree := .besideLocked [("x".toList, .link "/p/y".toList),
  ("x.js".toList, .file .ofFile []), ("y.js".toList, .file .ofFile [])]

/-- The name of the other file leads to it without its ending. -/
theorem resolve_settles_shadowed :
    (resolve {} Tree.system.isFile shadowed.cwd "./y".toList "a.js".toList none).run.run shadowed =
      (.ok (some (Path.ofText "/w/y.js".toList)), shadowed) := by
  have hcwd : shadowed.cwd.IsNormal := Tree.besideLocked_cwd_isNormal _
  have hfile : "a.js".toList ≠ [] := by decide
  have hreference : "./y".toList ≠ [] := by decide
  have hroot : ({} : Conventions).aliasMark <+: "./y".toList → (none : Option Text).isSome := by
    decide
  obtain ⟨place, outcome, hplace, -, hrun, hsettles⟩ :=
    resolve_settles hcwd hfile hreference hroot
  have hsame : place = Path.ofText "/w/y".toList := by
    refine Option.some.inj (hplace.symm.trans ?_)
    decide +kernel
  subst hsame
  have hfirst : Decides shadowed.isFile (candidates {} shadowed.cwd (Path.ofText "/w/y".toList))
      (Path.ofText "/w/y.js".toList) (.ok true) :=
    ⟨[Path.ofText "/w/y".toList], _, rfl, by decide +kernel, by decide +kernel, nofun⟩
  have houtcome := (hsettles.found_iff _).mpr hfirst
  subst houtcome
  exact hrun

/-- A candidate that cannot be examined may hide a later one that is a regular file. -/
theorem exists_candidate_hidden : ¬ ∀ (tree : Tree) (conventions : Conventions)
    (reference file : Text) (root : Option Text) (place path : Path) (earlier later : List Path),
    tree.cwd.IsNormal → file ≠ [] → reference ≠ [] →
      place? conventions tree.cwd (.ofText file) (root.map .ofText) reference = some place →
      candidates conventions tree.cwd place = earlier ++ path :: later →
      tree.isFile path = .ok true → (∀ other ∈ earlier, tree.isFile other ≠ .ok true) →
        (resolve conventions Tree.system.isFile tree.cwd reference file
          (root.map .ofText)).run.run tree = (.ok (some path), tree) := by
  intro hall
  have hcwd : shadowed.cwd.IsNormal := Tree.besideLocked_cwd_isNormal _
  have hfound := hall shadowed {} "./x".toList "a.js".toList none (Path.ofText "/w/x".toList)
    (Path.ofText "/w/x.js".toList) [Path.ofText "/w/x".toList] _ hcwd (by decide) (by decide)
    (by decide +kernel) rfl (by decide +kernel) (by decide +kernel)
  have hhidden : ((resolve {} Tree.system.isFile shadowed.cwd "./x".toList "a.js".toList
      none).run.run shadowed).1 =
        .error (.files (.failed .denied (Path.ofText "/w/x".toList))) := by decide +kernel
  have hsame := (congrArg Prod.fst hfound).symm.trans hhidden
  cases hsame

end SourceLoom.Reference
