import SourceLoom.Proofs.Distinct
import SourceLoom.Proofs.Path.Slashes
import SourceLoom.Proofs.Path.Ways
import SourceLoom.Scan

/-!
# The directory that files have in common

The names that lists of names share at their beginning are the greatest that begin all of them. So
the common base of files is the deepest directory above all of them, if no file is above another:
a single file has the directory that holds it, and two different files cannot share all the names
of one of them. Names are compared as a whole, and so a directory is not shared only because its
name begins that of another.
-/

namespace SourceLoom

namespace Path

/-- Names begin what two lists share exactly if they begin both. -/
theorem isPrefix_sharedNames_iff {names source target : List Name} :
    names <+: sharedNames source target ↔ names <+: source ∧ names <+: target := by
  induction names generalizing source target with
  | nil => simp
  | cons name names ih =>
    cases source with
    | nil => simp [sharedNames]
    | cons first source =>
      cases target with
      | nil => simp [sharedNames]
      | cons other target =>
        rw [sharedNames, List.cons_prefix_cons, List.cons_prefix_cons]
        split
        · rename_i hsame
          subst hsame
          rw [List.cons_prefix_cons, ih]
          exact ⟨fun ⟨hname, hfirst, hsecond⟩ => ⟨⟨hname, hfirst⟩, hname, hsecond⟩,
            fun ⟨⟨hname, hfirst⟩, _, hsecond⟩ => ⟨hname, hfirst, hsecond⟩⟩
        · rename_i hdiffer
          constructor
          · intro h
            cases List.prefix_nil.mp h
          · rintro ⟨⟨rfl, -⟩, hother, -⟩
            exact absurd hother hdiffer

/-- Names begin what all paths share exactly if they begin each of them. -/
theorem isPrefix_foldl_sharedNames_iff {names first : List Name} {others : List Path} :
    names <+: others.foldl (fun shared other => sharedNames shared other.names) first ↔
      names <+: first ∧ ∀ other ∈ others, names <+: other.names := by
  induction others generalizing first with
  | nil => simp
  | cons other others ih =>
    rw [List.foldl_cons, ih, isPrefix_sharedNames_iff, List.forall_mem_cons, and_assoc]

end Path

namespace Scan

variable {files others : List Path} {base other : Path}

/-- The deepest directory above some files. -/
structure IsDeepestAbove (files : List Path) (base : Path) : Prop where
  /-- It is above all of them. -/
  above : ∀ file ∈ files, base.IsAbove file
  /-- Every directory above all of them is on the way to it. -/
  deepest : ∀ directory : Path, (∀ file ∈ files, directory.IsAbove file) →
    directory.IsOnWayTo base

/-- There is only one such directory, and it does not matter in which order the files are given and
how often. -/
theorem IsDeepestAbove.unique (h : IsDeepestAbove files base) (h' : IsDeepestAbove others other)
    (hsame : ∀ file, file ∈ others ↔ file ∈ files) : other = base := by
  have hother : other.IsOnWayTo base :=
    h.deepest other fun file hfile => h'.above file ((hsame file).mpr hfile)
  have hbase : base.IsOnWayTo other :=
    h'.deepest base fun file hfile => h.above file ((hsame file).mp hfile)
  exact hother.antisymm hbase

/-- The directory that holds a file is the deepest above it. -/
theorem isDeepestAbove_parent {file : Path} (h : file.names ≠ []) :
    IsDeepestAbove [file] file.parent where
  above := List.forall_mem_singleton.mpr (Path.isAbove_parent h)
  deepest _ habove := (habove file (List.mem_singleton_self file)).isOnWayTo_parent

/-- What two or more different files share is the deepest directory above them, if none of them is
above another. -/
theorem isDeepestAbove_shared {file : Path} (hnodup : (file :: other :: others).Nodup)
    (hstart : ∀ path ∈ file :: other :: others, path.start = .root)
    (hapart : ∀ path ∈ file :: other :: others, ∀ next ∈ file :: other :: others,
      ¬path.IsAbove next) :
    IsDeepestAbove (file :: other :: others) ⟨.root, (other :: others).foldl
      (fun shared next => Path.sharedNames shared next.names) file.names⟩ := by
  have hshared (names : List Name) : names <+: (other :: others).foldl
      (fun shared next => Path.sharedNames shared next.names) file.names ↔
        ∀ path ∈ file :: other :: others, names <+: path.names := by
    simp only [Path.isPrefix_foldl_sharedNames_iff, List.forall_mem_cons]
  constructor
  · intro path hpath
    have hway : ∀ next ∈ file :: other :: others, (⟨.root, (other :: others).foldl
        (fun shared next => Path.sharedNames shared next.names) file.names⟩ : Path).IsOnWayTo
          next := fun next hnext =>
      ⟨(hstart next hnext).symm, (hshared _).mp List.prefix_rfl next hnext⟩
    refine ⟨hway path hpath, fun hsame => ?_⟩
    -- A file that all share would be on the way to the others, and so there would be no others.
    have hall : ∀ next ∈ file :: other :: others, path = next := by
      intro next hnext
      by_contra hne
      exact hapart path hpath next hnext ⟨hsame ▸ hway next hnext, hne⟩
    have hfirst := hall file List.mem_cons_self
    have hsecond := hall other (List.mem_cons_of_mem _ List.mem_cons_self)
    exact (List.nodup_cons.mp hnodup).1 (hfirst.symm.trans hsecond ▸ List.mem_cons_self)
  · intro directory habove
    obtain ⟨⟨hdirectory, -⟩, -⟩ := habove file List.mem_cons_self
    refine ⟨hdirectory.trans (hstart file List.mem_cons_self), (hshared _).mpr ?_⟩
    exact fun path hpath => (habove path hpath).1.2

variable (cwd : Path)

/-- The common base of files is the deepest directory above them. -/
theorem isDeepestAbove_commonBase (hne : files ≠ [])
    (hfiles : ∀ file ∈ files, file.IsNormal ∧ file.start = .root ∧ file ≠ .root)
    (hapart : ∀ file ∈ files, ∀ other ∈ files, ¬file.IsAbove other) :
    IsDeepestAbove files (commonBase cwd files) := by
  have hmap : files.map (·.absolute cwd) = files := by
    rw [List.map_congr_left fun file hfile => (hfiles file hfile).1.absolute_eq cwd, List.map_id']
  have hmem (file : Path) : file ∈ files.eraseDups ↔ file ∈ files := List.mem_eraseDups
  suffices IsDeepestAbove files.eraseDups (commonBase cwd files) from
    ⟨fun file hfile => this.above file ((hmem file).mpr hfile), fun directory habove =>
      this.deepest directory fun file hfile => habove file ((hmem file).mp hfile)⟩
  have hnodup := nodup_eraseDups files
  unfold commonBase
  rw [hmap]
  simp only [← hmem] at hfiles hapart
  cases hdistinct : files.eraseDups with
  | nil =>
    obtain ⟨file, hfile⟩ := List.exists_mem_of_ne_nil files hne
    have hnone := (hmem file).mpr hfile
    rw [hdistinct] at hnone
    cases hnone
  | cons file rest =>
    rw [hdistinct] at hnodup hfiles hapart
    cases rest with
    | nil =>
      obtain ⟨-, hstart, hroot⟩ := hfiles file List.mem_cons_self
      exact isDeepestAbove_parent fun hnames => hroot (Path.eq_of_start_names hstart hnames)
    | cons other others =>
      exact isDeepestAbove_shared hnodup (fun path hpath => (hfiles path hpath).2.1) hapart

/-- The common base of files with normal paths is the deepest directory above all of them, whatever
their order and repetitions are, if none of them is the root directory or above another. Each file
is shown from it by one or more names that do not lead up, and they lead to the file again. -/
theorem commonBase_deepest (hne : files ≠ [])
    (hfiles : ∀ file ∈ files, file.IsNormal ∧ file.start = .root ∧ file ≠ .root)
    (hapart : ∀ file ∈ files, ∀ other ∈ files, ¬file.IsAbove other) :
    (∀ file ∈ files, (commonBase cwd files).IsAbove file) ∧
      (∀ directory : Path, (∀ file ∈ files, directory.IsAbove file) →
        directory.IsOnWayTo (commonBase cwd files)) ∧
      (∀ others : List Path, (∀ file, file ∈ others ↔ file ∈ files) →
        commonBase cwd others = commonBase cwd files) ∧
      ∀ file ∈ files, ∃ names, file.shownFrom cwd (commonBase cwd files) = ⟨.here, names⟩ ∧
        names ≠ [] ∧ Path.dotDot ∉ names ∧
          (commonBase cwd files).append (file.shownFrom cwd (commonBase cwd files)) = file := by
  have hdeepest := isDeepestAbove_commonBase cwd hne hfiles hapart
  refine ⟨hdeepest.above, hdeepest.deepest, fun others hsame => ?_, fun file hfile => ?_⟩
  · have hothers : others ≠ [] := by
      obtain ⟨file, hfile⟩ := List.exists_mem_of_ne_nil files hne
      exact List.ne_nil_of_mem ((hsame file).mpr hfile)
    have hother := isDeepestAbove_commonBase cwd hothers
      (fun file hfile => hfiles file ((hsame file).mp hfile))
      fun file hfile next hnext => hapart file ((hsame file).mp hfile) next ((hsame next).mp hnext)
    exact hdeepest.unique hother hsame
  · have hnormal := (hfiles file hfile).1
    have habove := hdeepest.above file hfile
    have hbase := (habove.1.isNormal hnormal).absolute_eq cwd
    obtain ⟨names, hnames, hpath⟩ := Path.isAbove_iff.mp habove
    have hshown : file.shownFrom cwd (commonBase cwd files) = ⟨.here, names⟩ :=
      Path.shownFrom_eq hnormal (by rw [hbase, ← hpath])
    refine ⟨names, hshown, hnames, fun hup => hnormal.noDotDot ?_, ?_⟩
    · rw [hpath]
      exact List.mem_append_right _ hup
    · rw [hshown]
      exact hpath.symm

/-- Files whose directories share the beginning of a name, one of them twice. -/
def sharing : List Path :=
  ["/w/ab/x", "/w/a/b", "/w/a/c/d", "/w/ab/x"].map fun text => .ofText text.toList

/-- Their common base is the directory that they share, and not the beginning of a name. -/
theorem commonBase_deepest_sharing :
    (∀ file ∈ sharing, file.IsNormal ∧ file.start = .root ∧ file ≠ .root) ∧
      (∀ file ∈ sharing, ∀ other ∈ sharing, ¬file.IsAbove other) ∧
      commonBase .root sharing = .ofText "/w".toList ∧
      ∀ file ∈ sharing, (commonBase .root sharing).IsAbove file := by
  have hfiles : ∀ file ∈ sharing, file.IsNormal ∧ file.start = .root ∧ file ≠ .root := by decide
  have hapart : ∀ file ∈ sharing, ∀ other ∈ sharing, ¬file.IsAbove other := by decide
  obtain ⟨habove, -⟩ := commonBase_deepest .root (by decide) hfiles hapart
  exact ⟨hfiles, hapart, by decide +kernel, habove⟩

end Scan

end SourceLoom
