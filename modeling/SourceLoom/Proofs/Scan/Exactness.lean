import SourceLoom.Proofs.Scan.Descent

/-!
# What a scan finds

If nothing fails that a scan asks about, it finds exactly the regular files below its directory that
can be reached through real directories that are not excluded, in the order of their paths, however
the links below it loop. A directory that may not be listed is passed over. An entry that cannot be
examined, such as a link to where nothing may be looked up, is not: it ends the scan.
-/

namespace SourceLoom.Scan

open Files Relation

variable {tree : Tree} {excluded : List Name} {top directory : Path}

/-- Nothing fails below a directory: every directory that can be gone down to can be listed, and
each of its entries can be examined. -/
def Unhindered (tree : Tree) (excluded : List Name) (top : Path) : Prop :=
  ∀ directory, ReflTransGen (Descends tree excluded) top directory →
    ∃ names, tree.list directory = .ok names ∧
      ∀ name ∈ names, ∃ answer, tree.isDirectory (directory.entry name) = .ok answer

/-- If nothing fails, a scan comes to every directory that can be gone down to. -/
theorem Unhindered.reaches_iff (h : Unhindered tree excluded top) :
    Reaches tree excluded top directory ↔ ReflTransGen (Descends tree excluded) top directory := by
  constructor
  · intro hreaches
    induction hreaches with
    | refl => exact .refl
    | tail _ hlast ih => exact ih.tail hlast.2
  · intro hdescends
    induction hdescends with
    | refl => exact .refl
    | tail hbefore hlast ih =>
      obtain ⟨names, hlist, -⟩ := h _ hbefore
      exact ih.tail ⟨⟨names, hlist⟩, hlast⟩

/-- If nothing fails, a scan comes to nothing that cannot be examined. -/
theorem Unhindered.not_blocked (h : Unhindered tree excluded top) (fault : Fault) :
    ¬Blocked tree excluded top fault := by
  rintro ⟨directory, names, hreaches, hlist, name, hname, hfault⟩
  obtain ⟨others, hothers, hexamined⟩ := h directory (h.reaches_iff.mp hreaches)
  cases hlist.symm.trans hothers
  obtain ⟨answer, hanswer⟩ := hexamined name hname
  cases hanswer.symm.trans hfault

/-- Nothing fails below a directory of a table of directories and what they list, if each of their
entries can be examined, and those that can be gone down to are in the table. -/
theorem unhindered_of_closed (directories : List (Path × List Name))
    (hclosed : ∀ row ∈ directories, row.1.isAbsolute = true ∧ tree.list row.1 = .ok row.2 ∧
      ∀ name ∈ row.2, tree.isDirectory (row.1.entry name) = .ok false ∨
        (tree.isDirectory (row.1.entry name) = .ok true ∧
          (name ∉ excluded → tree.isLink (row.1.entry name) = .ok false →
            row.1.entry name ∈ directories.map (·.1))))
    (htop : top ∈ directories.map (·.1)) : Unhindered tree excluded top := by
  intro directory hdescends
  have hmem : directory ∈ directories.map (·.1) := by
    induction hdescends with
    | refl => exact htop
    | tail _ hlast ih =>
      obtain ⟨⟨above, names⟩, hrow, rfl⟩ := List.mem_map.mp ih
      obtain ⟨habsolute, hlist, hentries⟩ := hclosed _ hrow
      obtain ⟨name, hname, hexcluded, rfl, hdirectory, hlink⟩ := hlast
      have hlisted := (Tree.mem_list_of_leadsTo habsolute hlist hname hdirectory).1
      rcases hentries name hlisted with hnot | ⟨-, hnext⟩
      · cases hnot.symm.trans hdirectory
      · exact hnext hexcluded hlink
  obtain ⟨⟨directory, names⟩, hrow, rfl⟩ := List.mem_map.mp hmem
  obtain ⟨-, hlist, hentries⟩ := hclosed _ hrow
  refine ⟨names, hlist, fun name hname => ?_⟩
  rcases hentries name hname with hnot | ⟨hdirectory, -⟩
  · exact ⟨false, hnot⟩
  · exact ⟨true, hdirectory⟩

/-- Each file is found once. -/
theorem FilesBelow.nodup {found : List Path} (h : FilesBelow tree excluded top found) :
    found.Nodup :=
  List.nodup_iff_pairwise_ne.mpr
    (h.sorted.imp fun hlt hsame => absurd (congrArg Path.components hsame) hlt.ne)

/-- What is to be found below a directory is one list. -/
theorem FilesBelow.unique {found other : List Path} (h : FilesBelow tree excluded top found)
    (h' : FilesBelow tree excluded top other) : found = other := by
  have hperm : found.Perm other :=
    (List.perm_ext_iff_of_nodup h.nodup h'.nodup).mpr fun path => by rw [h.mem_iff, h'.mem_iff]
  exact hperm.eq_of_pairwise (fun p q _ _ hpq hqp => absurd hqp (lt_asymm hpq)) h.sorted h'.sorted

variable (hwell : tree.WellFormed) (root : Text)

include hwell in
/-- A scan of a directory settles, however many levels more than it allows itself it may go down. -/
theorem settles_run (hroot : tree.isDirectory ((Path.ofText root).absolute tree.cwd) = .ok true)
    {levels : Nat} (hlevels : pathLimit ≤ levels) :
    ∃ answer, (filesBelow Tree.system excluded levels
        ((Path.ofText root).absolute tree.cwd)).run.run tree = (answer, tree) ∧
      Settles tree excluded ((Path.ofText root).absolute tree.cwd) answer := by
  have hnormal := Path.absolute_ofText_isNormal root hwell.cwd_isNormal
  exact ⟨_, (mirrors_system tree).run_filesBelow excluded levels _,
    settles_filesBelow hwell hnormal hroot (hlevels.trans (Nat.le_add_right _ _))⟩

/-- A scan of a directory whose names are in order visits them as they are listed. -/
theorem run_filesIn_of_sorted (names : List Name) {answer : Except Fault (List Path)}
    (hlist : tree.list (directory.absolute tree.cwd) = .ok names)
    (hsorted : names.Pairwise fun name next => Text.beforeOrEqual name next = true)
    (hgather : Id.run (gather (visit tree.frozen excluded (pathLimit - 1))
      (directory.absolute tree.cwd) names).run = answer) :
    (filesIn Tree.system tree.cwd excluded directory).run.run tree = (answer, tree) := by
  rw [filesIn, (mirrors_system tree).run_filesBelow]
  change (filesBelow tree.frozen excluded (pathLimit - 1 + 1) _, tree) = _
  rw [filesBelow_succ, hlist]
  dsimp only
  rw [Text.sort, List.mergeSort_of_pairwise hsorted]
  exact congrArg (·, tree) hgather

include hwell in
/-- If nothing fails below a directory, a scan of it ends with the regular files in the directories
that can be gone down to, each once and in increasing order of their paths. It would find nothing
else if it went down more levels than it allows itself. -/
theorem filesIn_exact (h : Unhindered tree excluded ((Path.ofText root).absolute tree.cwd)) :
    ∃ found,
      (filesIn Tree.system tree.cwd excluded (Path.ofText root)).run.run tree = (.ok found, tree) ∧
      (found.Pairwise fun p q => p.components < q.components) ∧ found.Nodup ∧
      (∀ path, path ∈ found ↔ ∃ directory,
        ReflTransGen (Descends tree excluded) ((Path.ofText root).absolute tree.cwd) directory ∧
          HasFile tree directory path) ∧
      ∀ levels, pathLimit ≤ levels →
        (filesBelow Tree.system excluded levels ((Path.ofText root).absolute tree.cwd)).run.run
          tree = (.ok found, tree) := by
  obtain ⟨names, hlist, -⟩ := h _ .refl
  have hroot := Tree.isDirectory_of_list hlist
  have hruns : ∀ levels, pathLimit ≤ levels → ∃ found,
      (filesBelow Tree.system excluded levels ((Path.ofText root).absolute tree.cwd)).run.run
          tree = (.ok found, tree) ∧
        FilesBelow tree excluded ((Path.ofText root).absolute tree.cwd) found := by
    intro levels hlevels
    obtain ⟨answer, hrun, ⟨found, rfl, hfiles, -⟩ | ⟨fault, -, hblocked⟩⟩ :=
      settles_run hwell root hroot hlevels
    · exact ⟨found, hrun, hfiles⟩
    · exact absurd hblocked (h.not_blocked fault)
  obtain ⟨found, hrun, hfiles⟩ := hruns pathLimit le_rfl
  refine ⟨found, hrun, hfiles.sorted, hfiles.nodup, fun path => ?_, fun levels hlevels => ?_⟩
  · rw [hfiles.mem_iff]
    constructor
    · rintro ⟨directory, hreaches, -, hfile⟩
      exact ⟨directory, h.reaches_iff.mp hreaches, hfile⟩
    · rintro ⟨directory, hdescends, hfile⟩
      obtain ⟨names, hlist, -⟩ := h directory hdescends
      exact ⟨directory, h.reaches_iff.mpr hdescends, ⟨names, hlist⟩, hfile⟩
  · obtain ⟨other, hother, hothers⟩ := hruns levels hlevels
    rw [hother, hfiles.unique hothers]

/-- A directory with files above and below, links to a file, to nothing and to itself, and a
directory that is not gone down to. -/
def winding : Tree := .besideLocked
  [("a".toList, .directory .ofDirectory [("z.js".toList, .file .ofFile [])]),
    ("a.js".toList, .file .ofFile []),
    ("again.js".toList, .link "a.js".toList),
    ("gone".toList, .link "nothing".toList),
    ("loop".toList, .link ".".toList),
    ("node_modules".toList, .directory .ofDirectory [("x.js".toList, .file .ofFile [])])]

/-- A scan of it goes down to one directory, and finds three files there and in the directory
itself. -/
theorem filesIn_exact_winding : winding.WellFormed ∧
    Unhindered winding defaultExcluded (Path.ofText "/w".toList) ∧ ∃ found,
      (filesIn Tree.system winding.cwd defaultExcluded (Path.ofText ".".toList)).run.run winding =
        (.ok found, winding) ∧
      found = [Path.ofText "/w/a/z.js".toList, Path.ofText "/w/a.js".toList,
        Path.ofText "/w/again.js".toList] ∧
      ∀ path ∈ found, ∃ directory,
        ReflTransGen (Descends winding defaultExcluded) (Path.ofText "/w".toList) directory ∧
          HasFile winding directory path := by
  have hwell : winding.WellFormed := by
    refine Tree.besideLocked_wellFormed (by decide) ?_
    simp only [List.forall_mem_cons]
    refine ⟨⟨.directory ?_ ?_, .directory ?_ ?_⟩, ⟨.file _ _, .file _ _⟩, ⟨.link _, .link _⟩,
      ⟨.link _, .link _⟩, ⟨.link _, .link _⟩, ⟨.directory ?_ ?_, .directory ?_ ?_⟩, nofun⟩
    all_goals first | decide | exact List.forall_mem_singleton.mpr (.file _ _)
  have h : Unhindered winding defaultExcluded (Path.ofText "/w".toList) :=
    unhindered_of_closed [(Path.ofText "/w".toList, ["a".toList, "a.js".toList, "again.js".toList,
      "gone".toList, "loop".toList, "node_modules".toList]),
      (Path.ofText "/w/a".toList, ["z.js".toList])] (by decide +kernel) (by decide)
  obtain ⟨found, hrun, -, -, hfound, -⟩ := filesIn_exact hwell ".".toList h
  refine ⟨hwell, h, found, hrun, ?_, fun path => (hfound path).mp⟩
  have hfiles : (filesIn Tree.system winding.cwd defaultExcluded
      (Path.ofText ".".toList)).run.run winding = (.ok [Path.ofText "/w/a/z.js".toList,
        Path.ofText "/w/a.js".toList, Path.ofText "/w/again.js".toList], winding) :=
    run_filesIn_of_sorted
      ["a".toList, "a.js".toList, "again.js".toList, "gone".toList, "loop".toList,
        "node_modules".toList] (by decide +kernel) (by decide) (by decide +kernel)
  cases hrun.symm.trans hfiles
  rfl

/-- A scan of a directory finds the regular files in the directories that it comes to and can list,
each once and in increasing order of their paths, unless it comes to an entry that cannot be
examined. Then it ends with a fault. -/
theorem filesIn_survives (hwell : tree.WellFormed) (excluded : List Name) (root : Text)
    (hroot : tree.isDirectory ((Path.ofText root).absolute tree.cwd) = .ok true) :
    (∃ found,
      (filesIn Tree.system tree.cwd excluded (Path.ofText root)).run.run tree = (.ok found, tree) ∧
        (∀ fault, ¬Blocked tree excluded ((Path.ofText root).absolute tree.cwd) fault) ∧
        (found.Pairwise fun p q => p.components < q.components) ∧ found.Nodup ∧
        ∀ path, path ∈ found ↔ ∃ directory,
          Reaches tree excluded ((Path.ofText root).absolute tree.cwd) directory ∧
            Lists tree directory ∧ HasFile tree directory path) ∨
      ∃ fault,
        (filesIn Tree.system tree.cwd excluded (Path.ofText root)).run.run tree =
            (.error fault, tree) ∧
          Blocked tree excluded ((Path.ofText root).absolute tree.cwd) fault := by
  obtain ⟨answer, hrun, ⟨found, rfl, hfiles, hclear⟩ | ⟨fault, rfl, hblocked⟩⟩ :=
    settles_run hwell root hroot le_rfl
  · exact Or.inl ⟨found, hrun, hclear, hfiles.sorted, hfiles.nodup, hfiles.mem_iff⟩
  · exact Or.inr ⟨fault, hrun, hblocked⟩

/-- A directory with a file and a directory that nothing may be done with. -/
def guarded : Tree := .besideLocked
  [("a.js".toList, .file .ofFile []), ("q".toList, .directory (.ofDigit 0) [])]

/-- A scan passes over a directory that may not be listed. -/
theorem filesIn_survives_guarded : guarded.WellFormed ∧
    guarded.isDirectory (Path.ofText "/w".toList) = .ok true ∧
    (filesIn Tree.system guarded.cwd [] (Path.ofText "/w".toList)).run.run guarded =
      (.ok [Path.ofText "/w/a.js".toList], guarded) := by
  have hwell : guarded.WellFormed := by
    refine Tree.besideLocked_wellFormed (by decide) ?_
    exact List.forall_mem_cons.mpr ⟨⟨.file _ _, .file _ _⟩,
      List.forall_mem_singleton.mpr ⟨.directory nofun nofun, .directory .nil nofun⟩⟩
  have hroot : guarded.isDirectory (Path.ofText "/w".toList) = .ok true := by decide +kernel
  have hfiles : (filesIn Tree.system guarded.cwd [] (Path.ofText "/w".toList)).run.run guarded =
      (.ok [Path.ofText "/w/a.js".toList], guarded) :=
    run_filesIn_of_sorted ["a.js".toList, "q".toList] (by decide +kernel) (by decide)
      (by decide +kernel)
  refine ⟨hwell, hroot, ?_⟩
  obtain ⟨found, hrun, -⟩ | ⟨fault, hrun, -⟩ :=
    filesIn_survives hwell [] "/w".toList hroot
  · cases hrun.symm.trans hfiles
    exact hrun
  · cases hrun.symm.trans hfiles

/-- A directory with a file and a link to where nothing may be looked up. -/
def barred : Tree := .besideLocked
  [("a.js".toList, .file .ofFile []), ("x".toList, .link "/p/x".toList)]

/-- A scan may end with a fault in an existing directory, although there are files that it could
find. -/
theorem exists_scan_stopped : ¬ ∀ (tree : Tree) (excluded : List Name) (root : Text),
    tree.WellFormed → tree.isDirectory ((Path.ofText root).absolute tree.cwd) = .ok true →
      ∃ found, (filesIn Tree.system tree.cwd excluded (Path.ofText root)).run.run tree =
        (.ok found, tree) := by
  intro hall
  have hwell : barred.WellFormed := by
    refine Tree.besideLocked_wellFormed (by decide) ?_
    exact List.forall_mem_cons.mpr ⟨⟨.file _ _, .file _ _⟩,
      List.forall_mem_singleton.mpr ⟨.link _, .link _⟩⟩
  obtain ⟨found, hfound⟩ := hall barred [] "/w".toList hwell (by decide +kernel)
  have hstopped : (filesIn Tree.system barred.cwd [] (Path.ofText "/w".toList)).run.run barred =
      (.error (.failed .denied (Path.ofText "/w/x".toList)), barred) :=
    run_filesIn_of_sorted ["a.js".toList, "x".toList] (by decide +kernel) (by decide)
      (by decide +kernel)
  cases hfound.symm.trans hstopped

end SourceLoom.Scan
