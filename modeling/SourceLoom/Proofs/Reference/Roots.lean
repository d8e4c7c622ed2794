import Mathlib.Logic.Function.Iterate
import SourceLoom.Proofs.Reference.Candidates

/-!
# The nearest marked directory

The root of the project of a file is sought from the directory of the file upwards, in at most so
many directories. It is the nearest of them that holds the marker, if the marker can be looked for
in all of them. The root directory is the last: nothing is above it, and to go on from there would
only look for the marker in the same place again. So the bound says how far is looked, and not what
is found: with a greater bound a root that was found stays the same.
-/

namespace SourceLoom.Path

/-- The directory so many levels above another. Nothing is above the root directory. -/
def ancestor (directory : Path) (level : Nat) : Path := parent^[level] directory

variable {directory path : Path} {level levels : Nat}

/-- Every level leaves out one name, as long as there is one. -/
theorem ancestor_eq (directory : Path) (level : Nat) : directory.ancestor level =
    ⟨directory.start, directory.names.take (directory.names.length - level)⟩ := by
  induction level with
  | zero =>
    rw [Nat.sub_zero, List.take_length]
    rfl
  | succ level ih =>
    have hstep : directory.ancestor (level + 1) = (directory.ancestor level).parent :=
      Function.iterate_succ_apply' parent level directory
    have hlength : min (min (directory.names.length - level) directory.names.length - 1)
        (directory.names.length - level) = directory.names.length - (level + 1) := by omega
    rw [hstep, ih, parent, List.dropLast_eq_take, List.length_take, List.take_take, hlength]

/-- Above the root directory there is only the root directory. -/
theorem ancestor_min (directory : Path) (level : Nat) :
    directory.ancestor (min level directory.names.length) = directory.ancestor level := by
  have hsame : directory.names.length - min level directory.names.length =
      directory.names.length - level := by omega
  rw [ancestor_eq, ancestor_eq, hsame]

/-- The directories above one with these names leave out one name after another. -/
theorem getElem?_upwardFrom (start : Start) {names : List Name} (h : level ≤ names.length) :
    (upwardFrom start names)[level]? = some ⟨start, (names.drop level).reverse⟩ := by
  induction names generalizing level with
  | nil =>
    obtain rfl := Nat.le_zero.mp h
    rfl
  | cons last above ih =>
    cases level with
    | zero => rfl
    | succ level => exact ih (Nat.le_of_succ_le_succ h)

/-- The directories upwards are as many as there are names, and the root directory. -/
theorem length_upwardFrom (start : Start) (names : List Name) :
    (upwardFrom start names).length = names.length + 1 := by
  induction names with
  | nil => rfl
  | cons last above ih => exact congrArg (· + 1) ih

/-- Upwards from a directory there is one directory for each level, down to the root directory. -/
theorem getElem?_upward (h : level ≤ directory.names.length) :
    directory.upward[level]? = some (directory.ancestor level) := by
  have hreverse : level ≤ directory.names.reverse.length := by rwa [List.length_reverse]
  rw [upward, getElem?_upwardFrom _ hreverse, ancestor_eq, List.drop_reverse, List.reverse_reverse]

/-- A directory is among so many upwards if it stands so many levels above. -/
theorem getElem?_take_upward :
    (directory.upward.take levels)[level]? = some path ↔
      level < levels ∧ level ≤ directory.names.length ∧ path = directory.ancestor level := by
  have hlength : directory.upward.length = directory.names.length + 1 := by
    rw [upward, length_upwardFrom, List.length_reverse]
  rw [List.getElem?_take]
  split
  · rename_i hlevel
    by_cases hheight : level ≤ directory.names.length
    · simp [getElem?_upward hheight, hlevel, hheight, eq_comm]
    · have hnone : directory.upward[level]? = none := List.getElem?_eq_none (by omega)
      simp [hnone, hheight]
  · rename_i hlevel
    simp [hlevel]

end SourceLoom.Path

namespace SourceLoom.Reference

open Files

variable {answer : Path → Except Fault Bool} {paths : List Path} {directory path root : Path}
  {given : Except Fault Bool} {levels : Int}

/-- The path that decides stands at some place in the list, and all before it are answered with
no. -/
theorem decides_iff_getElem? :
    Decides answer paths path given ↔
      answer path = given ∧ given ≠ .ok false ∧ ∃ i : Nat, paths[i]? = some path ∧
        ∀ j < i, ∀ other, paths[j]? = some other → answer other = .ok false := by
  constructor
  · rintro ⟨earlier, later, rfl, hearlier, hgiven, hne⟩
    refine ⟨hgiven, hne, earlier.length, by simp, ?_⟩
    intro j hj other hother
    rw [List.getElem?_append_left hj] at hother
    exact hearlier other (List.mem_of_getElem? hother)
  · rintro ⟨hgiven, hne, i, hi, hbefore⟩
    obtain ⟨hlength, rfl⟩ := List.getElem?_eq_some_iff.mp hi
    refine ⟨paths.take i, paths.drop (i + 1), by simp, ?_, hgiven, hne⟩
    intro other hother
    obtain ⟨j, hj⟩ := List.mem_iff_getElem?.mp hother
    rw [List.getElem?_take] at hj
    split at hj
    · exact hbefore j ‹_› other hj
    · cases hj

/-- Among so many directories from one upwards, this is the nearest with a mark, and the others
before it have none. -/
def IsNearest (marked : Path → Except Fault Bool) (levels : Int) (directory root : Path) : Prop :=
  ∃ level : Nat, level < levels ∧ root = directory.ancestor level ∧ marked root = .ok true ∧
    ∀ nearer < level, marked (directory.ancestor nearer) = .ok false

/-- A nearest mark is nearest in any bound that is not smaller. -/
theorem IsNearest.mono {more : Int} (h : IsNearest answer levels directory root)
    (hmore : levels ≤ more) : IsNearest answer more directory root := by
  obtain ⟨level, hlevel, hroot⟩ := h
  exact ⟨level, by omega, hroot⟩

/-- A mark decides a search upwards if it is the nearest. -/
theorem decides_take_upward :
    Decides answer (directory.upward.take levels.toNat) path (.ok true) ↔
      IsNearest answer levels directory path := by
  simp only [decides_iff_getElem?, Path.getElem?_take_upward, ne_eq, Except.ok.injEq,
    Bool.true_eq_false, not_false_eq_true, true_and]
  constructor
  · rintro ⟨hmarked, level, ⟨hlevels, hheight, rfl⟩, hnearer⟩
    refine ⟨level, by omega, rfl, hmarked, fun nearer hlt => ?_⟩
    exact hnearer nearer hlt _ ⟨by omega, by omega, rfl⟩
  · rintro ⟨level, hlevels, rfl, hmarked, hnearer⟩
    refine ⟨hmarked, level, ⟨by omega, ?_, rfl⟩, ?_⟩
    · -- The root directory was asked before, so nothing above it can be the nearest.
      by_contra hheight
      have hroot := hnearer directory.names.length (by omega)
      have hmin := directory.ancestor_min level
      rw [min_eq_right (by omega)] at hmin
      rw [hmin, hmarked] at hroot
      cases hroot
    · rintro nearer hlt _ ⟨-, -, rfl⟩
      exact hnearer nearer hlt

/-- The directories of a search upwards are those so many levels above. -/
theorem mem_take_upward :
    path ∈ directory.upward.take levels.toNat ↔
      ∃ level : Nat, level < levels ∧ path = directory.ancestor level := by
  rw [List.mem_iff_getElem?]
  simp only [Path.getElem?_take_upward]
  constructor
  · rintro ⟨level, hlevels, -, rfl⟩
    exact ⟨level, by omega, rfl⟩
  · rintro ⟨level, hlevels, rfl⟩
    refine ⟨min level directory.names.length, by omega, by omega, ?_⟩
    exact (directory.ancestor_min level).symm

/-- Whether a directory of a tree holds the marker, as far as that can be examined. -/
def marks (tree : Tree) (conventions : Conventions) (directory : Path) : Except Fault Bool :=
  tree.holds (directory.child conventions.markerFile)

/-- Seeking the root in a tree changes nothing, and it settles by where the marker is. -/
theorem findRoot_settles (tree : Tree) (conventions : Conventions) (file : Path) :
    ∃ outcome, (findRoot conventions Tree.system.holds tree.cwd file).run.run tree =
        (outcome, tree) ∧
      Settles (marks tree conventions) (rootsOf conventions tree.cwd file) outcome := by
  have hanswers : ∀ directory : Path,
      (Tree.system.holds (directory.child conventions.markerFile)).run.run tree =
        (marks tree conventions directory, tree) := fun _ => rfl
  exact firstWhere_settles hanswers (rootsOf conventions tree.cwd file)

/-- The root that is found for a file is the nearest directory with the marker, within the bound. -/
theorem findRoot_eq_some_iff (tree : Tree) (conventions : Conventions) (file : Path) :
    (findRoot conventions Tree.system.holds tree.cwd file).run.run tree = (.ok (some root), tree) ↔
      IsNearest (marks tree conventions) conventions.searchLevels
        (file.absolute tree.cwd).parent root := by
  obtain ⟨outcome, hrun, hsettles⟩ := findRoot_settles tree conventions file
  rw [hrun, Prod.mk.injEq, and_iff_left rfl, hsettles.found_iff, rootsOf, decides_take_upward]

/-- If the marker can be looked for in all directories within the bound, there is an answer. It is
the nearest of them that holds the marker, and none if there is no such directory. With a greater
bound a root that was found stays the same, and all files of a directory have the same root. -/
theorem findRoot_nearest (tree : Tree) (conventions : Conventions) (file : Path)
    (hchecks : ∀ level : Nat, level < conventions.searchLevels → ∃ marked,
      tree.holds (((file.absolute tree.cwd).parent.ancestor level).child conventions.markerFile) =
        .ok marked) :
    ∃ found : Option Path,
      (findRoot conventions Tree.system.holds tree.cwd file).run.run tree = (.ok found, tree) ∧
      (∀ root, found = some root ↔ IsNearest (marks tree conventions) conventions.searchLevels
        (file.absolute tree.cwd).parent root) ∧
      (found = none ↔ ∀ level : Nat, level < conventions.searchLevels →
        marks tree conventions ((file.absolute tree.cwd).parent.ancestor level) = .ok false) ∧
      (∀ more : Int, conventions.searchLevels ≤ more → found ≠ none →
        (findRoot { conventions with searchLevels := more } Tree.system.holds tree.cwd
          file).run.run tree = (.ok found, tree)) ∧
      ∀ other : Path, (other.absolute tree.cwd).parent = (file.absolute tree.cwd).parent →
        (findRoot conventions Tree.system.holds tree.cwd other).run.run tree =
          (.ok found, tree) := by
  obtain ⟨outcome, hrun, hsettles⟩ := findRoot_settles tree conventions file
  cases outcome with
  | error fault =>
    obtain ⟨path, earlier, later, hpaths, -, hfault, -⟩ := (hsettles.fault_iff fault).mp rfl
    have hmem : path ∈ rootsOf conventions tree.cwd file := by
      rw [hpaths]
      exact List.mem_append_right _ List.mem_cons_self
    obtain ⟨level, hlevel, rfl⟩ := mem_take_upward.mp hmem
    obtain ⟨marked, hmarked⟩ := hchecks level hlevel
    cases hmarked.symm.trans hfault
  | ok found =>
    refine ⟨found, hrun, ?_, ?_, ?_, ?_⟩
    · intro root
      rw [← findRoot_eq_some_iff, hrun, Prod.mk.injEq, and_iff_left rfl, Except.ok.injEq]
    · have hnone := hsettles.none_iff
      rw [Except.ok.injEq] at hnone
      rw [hnone]
      simp only [rootsOf, mem_take_upward, forall_exists_index, and_imp]
      constructor
      · exact fun hall level hlevel => hall _ level hlevel rfl
      · rintro hall _ level hlevel rfl
        exact hall level hlevel
    · intro more hmore hfound
      obtain ⟨root, rfl⟩ := Option.ne_none_iff_exists'.mp hfound
      have hnearest := (findRoot_eq_some_iff tree conventions file).mp hrun
      exact (findRoot_eq_some_iff tree { conventions with searchLevels := more } file).mpr
        (hnearest.mono hmore)
    · intro other hother
      rw [← hrun, findRoot, findRoot, rootsOf, rootsOf, hother]

/-- A file two directories below the nearer of two markers. -/
def nested : Tree where
  root := .directory .ofDirectory
    [("package.json".toList, .file .ofFile []),
      ("w".toList, .directory .ofDirectory
        [("package.json".toList, .file .ofFile []),
          ("a".toList, .directory .ofDirectory
            [("b".toList, .directory .ofDirectory [("x.js".toList, .file .ofFile [])])])])]
  cwd := ⟨.root, []⟩

/-- Three directories are enough to find the nearer marker, also where the path of the file begins
with two slashes. -/
theorem findRoot_nearest_nested :
    (findRoot { searchLevels := 3 } Tree.system.holds nested.cwd
      (.ofText "//w/a/b/x.js".toList)).run.run nested =
        (.ok (some (.ofText "//w".toList)), nested) := by
  have hasked : ∀ level < 3, ∃ marked ∈ [false, true],
      nested.holds ((((Path.ofText "//w/a/b/x.js".toList).absolute nested.cwd).parent.ancestor
        level).child "package.json".toList) = .ok marked := by decide +kernel
  obtain ⟨found, hrun, hfound, -⟩ := findRoot_nearest nested { searchLevels := 3 }
    (.ofText "//w/a/b/x.js".toList) fun level hlevel => by
      obtain ⟨marked, -, hmarked⟩ := hasked level (Int.ofNat_lt.mp hlevel)
      exact ⟨marked, hmarked⟩
  have hroot : found = some (.ofText "//w".toList) :=
    (hfound _).mpr ⟨2, by decide, by decide +kernel, by decide +kernel, by decide +kernel⟩
  rw [hrun, hroot]

end SourceLoom.Reference
