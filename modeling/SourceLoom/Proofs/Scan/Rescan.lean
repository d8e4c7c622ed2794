import SourceLoom.Proofs.Path.Slashes
import SourceLoom.Proofs.Scan.Frozen

/-!
# Scanning again

Writing a file changes no other file that a scan finds, in a tree without links. Whether the file
lies in the scanned directory, and whether it was there before, makes no difference: it only is or
is not among the files itself.
-/

namespace SourceLoom.Scan

open Files

variable {tree after : Tree} {file : Path} {bytes : List UInt8} {excluded : List Name}
  {levels : Nat} {directory : Path}

/-- All that is found at the path of a regular file is the file. -/
theorem filter_visit_self {name : Name} (hdirectory : tree.isDirectory file = .ok false)
    (hfile : ∃ isFile, tree.isFile file = .ok isFile) :
    (·.filter (· ≠ file)) <$> visit tree.frozen excluded levels name file = pure [] := by
  obtain ⟨isFile, hfile⟩ := hfile
  rw [visit_of_isDirectory_eq_false hdirectory hfile, map_pure]
  cases isFile <;> simp

/-- Scanning a directory again after a file was written finds the same other files. -/
theorem filter_filesBelow (hwrites : tree.Writes file bytes after) (hlinks : tree.root.LinkFree)
    (hnames : tree.root.WellNamed) (hfile : file.IsNormal) (hroot : file.start = .root)
    (hnormal : directory.IsNormal) (hstart : directory.start = .root)
    (hdirectory : tree.isDirectory directory = .ok true) :
    (·.filter (· ≠ file)) <$> filesBelow after.frozen excluded levels directory =
      (·.filter (· ≠ file)) <$> filesBelow tree.frozen excluded levels directory := by
  obtain ⟨hnone, hbefore⟩ := hwrites.before_cases hlinks hfile
  induction levels generalizing directory with
  | zero => rfl
  | succ levels ih =>
    have hother {path : Path} (hpath : path.start = .root) (hne : path ≠ file) :
        path.names ≠ file.names := fun hsame =>
      hne (Path.eq_of_start_names (hpath.trans hroot.symm) hsame)
    have hkept : Tree.Kept tree after file directory := by
      refine hwrites.kept hlinks hnormal (hother hstart ?_)
      rintro rfl
      rw [hnone] at hdirectory
      cases hdirectory
    have hself {name : Name} : (·.filter (· ≠ file)) <$>
        visit after.frozen excluded levels name file =
        pure [] := by
      refine filter_visit_self ?_ ⟨true, ?_⟩
      · exact hwrites.leadsTo_eq hlinks hfile fun _ => rfl
      · exact hwrites.leadsTo_eq hlinks hfile fun _ => rfl
    have hvisit {names : List Name} (hlist : tree.list directory = .ok names) :
        ∀ name ∈ Text.sort names,
          (·.filter (· ≠ file)) <$> visit after.frozen excluded levels name (directory.entry name) =
            (·.filter (· ≠ file)) <$>
              visit tree.frozen excluded levels name (directory.entry name) := by
      intro name hname
      by_cases hsame : directory.entry name = file
      · rw [hsame, hself, filter_visit_self hnone hbefore]
      · have hproper :=
          Tree.isName_of_list hlinks hnames hnormal hlist name (Text.mem_sort.mp hname)
        have hentry := hwrites.kept hlinks (hnormal.entry hproper) (hother hstart hsame)
        exact filter_visit_congr hentry.isDirectory_eq hentry.isLink_eq hentry.isFile_eq fun h =>
          ih (hnormal.entry hproper) hstart h
    rw [filesBelow_succ, filesBelow_succ]
    rcases hkept.list_cases hdirectory with hsame | ⟨names, name, hlist, hafter, hnew, hplace⟩
    · rw [hsame]
      cases hlist : tree.list directory with
      | error fault =>
        cases fault with
        | nullInPath => rfl
        | failed cause path => cases cause <;> rfl
      | ok names => exact filter_gather_congr _ (hvisit hlist)
    · have hentry : directory.entry name = file :=
        Path.eq_of_start_names (hstart.trans hroot.symm) hplace
      have hsorted : (Text.sort (names ++ [name])).filter (· ≠ name) = Text.sort names := by
        rw [Text.filter_sort, List.filter_append, List.filter_eq_self.mpr]
        · simp
        · intro other hother
          exact decide_eq_true fun heq => hnew (heq ▸ hother)
      rw [hlist, hafter]
      dsimp only
      rw [← filter_gather_filter _ (· ≠ name), hsorted]
      · exact filter_gather_congr _ (hvisit hlist)
      · intro other _ hother
        rw [decide_eq_false_iff_not, not_not] at hother
        rw [hother, hentry, hself]

/-- What is gathered from the entries of a directory has a property, if what each entry gives has
it. -/
theorem mem_gather {visit : Name → Path → ExceptT Fault Id (List Path)} {names : List Name}
    {property : Path → Prop}
    (h : ∀ name ∈ names, ∀ found, visit name (directory.entry name) = pure found →
      ∀ path ∈ found, property path) {found : List Path}
    (hfound : gather visit directory names = pure found) : ∀ path ∈ found, property path := by
  induction names generalizing found with
  | nil =>
    cases hfound
    exact nofun
  | cons name names ih =>
    unfold gather at hfound
    cases hhere : visit name (directory.entry name) with
    | error fault =>
      rw [hhere] at hfound
      cases hfound
    | ok here =>
      cases hmore : gather visit directory names with
      | error fault =>
        rw [hhere, hmore] at hfound
        cases hfound
      | ok more =>
        rw [hhere, hmore] at hfound
        cases hfound
        intro path hpath
        rcases List.mem_append.mp hpath with hpath | hpath
        · exact h name List.mem_cons_self here hhere path hpath
        · exact ih (fun name hname => h name (List.mem_cons_of_mem _ hname)) hmore path hpath

/-- What an entry gives has a property, if the files below it have it and the entry itself has it
where it is a regular file. -/
theorem mem_visit {name : Name} {path : Path} {property : Path → Prop}
    (hbelow : ∀ found, filesBelow tree.frozen excluded levels path = pure found →
      ∀ other ∈ found, property other)
    (hself : tree.isFile path = .ok true → property path) {found : List Path}
    (hfound : visit tree.frozen excluded levels name path = pure found) :
    ∀ other ∈ found, property other := by
  unfold visit at hfound
  cases hdirectory : tree.frozen.isDirectory path with
  | error fault =>
    rw [hdirectory] at hfound
    cases hfound
  | ok isDirectory =>
    rw [hdirectory] at hfound
    cases isDirectory with
    | true =>
      change (if name ∈ excluded then pure [] else tree.frozen.isLink path >>= _) = _ at hfound
      split at hfound
      · cases hfound
        exact nofun
      · cases hlink : tree.frozen.isLink path with
        | error fault =>
          rw [hlink] at hfound
          cases hfound
        | ok isLink =>
          rw [hlink] at hfound
          cases isLink with
          | true =>
            cases hfound
            exact nofun
          | false => exact hbelow found hfound
    | false =>
      cases hfile : tree.frozen.isFile path with
      | error fault =>
        rw [hfile] at hfound
        cases hfound
      | ok isFile =>
        rw [hfile] at hfound
        cases isFile with
        | true =>
          cases hfound
          intro other hother
          rw [List.mem_singleton.mp hother]
          exact hself hfile
        | false =>
          cases hfound
          exact nofun

/-- Every file that a scan finds is a regular file with a normal path. -/
theorem mem_filesBelow (hlinks : tree.root.LinkFree) (hnames : tree.root.WellNamed)
    (hnormal : directory.IsNormal) (hstart : directory.start = .root) {found : List Path}
    (hfound : filesBelow tree.frozen excluded levels directory = pure found) :
    ∀ path ∈ found, path.IsNormal ∧ path.start = .root ∧ tree.isFile path = .ok true := by
  induction levels generalizing directory found with
  | zero =>
    cases hfound
    exact nofun
  | succ levels ih =>
    rw [filesBelow_succ] at hfound
    cases hlist : tree.list directory with
    | error fault =>
      rw [hlist] at hfound
      cases fault with
      | nullInPath => cases hfound
      | failed cause path =>
        cases cause with
        | denied =>
          cases hfound
          exact nofun
        | _ => cases hfound
    | ok names =>
      rw [hlist] at hfound
      refine mem_gather (fun name hname here hhere path hpath => ?_) hfound
      have hproper := Tree.isName_of_list hlinks hnames hnormal hlist name (Text.mem_sort.mp hname)
      exact mem_visit (fun below hbelow => ih (hnormal.entry hproper) hstart hbelow)
        (fun hfile => ⟨hnormal.entry hproper, hstart, hfile⟩) hhere path hpath

end SourceLoom.Scan
