import SourceLoom.Proofs.Outline.Branches
import SourceLoom.Proofs.Outline.Reading
import SourceLoom.Proofs.Path.Ways

/-!
# Outlines of files

The files are sorted before they are added to an outline, and so every path is added after all that
come before it. The branches of the outline are then the paths of the files from the base directory,
each once and in increasing order, and nothing else depends on how the files were given. A file
above another one would have no branch of its own.
-/

namespace SourceLoom

namespace Path

variable {base path other : Path} {names more : List Name}

/-- One path comes before another in the order of their components. -/
theorem before_iff : before path other = true ↔ path.components < other.components := by
  have h (components others : List Text) :
      componentsBefore components others = true ↔ components < others := by
    induction components generalizing others with
    | nil => cases others <;> simp [componentsBefore]
    | cons first components ih =>
      cases others with
      | nil => simp [componentsBefore]
      | cons second others =>
        rw [componentsBefore, List.cons_lt_cons_iff]
        split
        · rename_i hsame
          rw [ih, hsame]
          simp
        · rename_i hdiffer
          rw [Text.before_iff]
          exact ⟨Or.inl, fun hlt => hlt.resolve_right fun hlt => hdiffer hlt.1⟩
  exact h _ _

/-- Sorted paths are in the order of their components. -/
theorem sort_pairwise (paths : List Path) :
    (sort paths).Pairwise fun p q => p.components ≤ q.components := by
  have hle (p q : Path) : (!before q p) = true ↔ p.components ≤ q.components := by
    rw [Bool.not_eq_true', ← not_lt, ← before_iff, Bool.not_eq_true]
  have htrans : ∀ p q r : Path, (!before q p) = true → (!before r q) = true →
      (!before r p) = true := fun p q r hpq hqr =>
    (hle p r).mpr (((hle p q).mp hpq).trans ((hle q r).mp hqr))
  have htotal : ∀ p q : Path, (!before q p || !before p q) = true := fun p q => by
    rw [Bool.or_eq_true, hle, hle]
    exact le_total _ _
  exact (List.pairwise_mergeSort htrans htotal paths).imp fun h => (hle _ _).mp h

/-- Paths below one directory come in the order of the names that lead to them. -/
theorem names_le_of_components_le
    (h : (base.along names).components ≤ (base.along more).components) : names ≤ more := by
  rw [← not_lt] at h ⊢
  intro hlt
  have happend : base.names ++ more < base.names ++ names := List.append_left_lt hlt
  refine h ?_
  unfold components along
  dsimp only
  split
  · exact happend
  · exact List.cons_lt_cons_iff.mpr (Or.inr ⟨rfl, happend⟩)

end Path

namespace Outline

/-- Every name of an outline is on a branch. -/
theorem exists_branch_of_mem_names {outline : Outline} {name : Text} (h : name ∈ outline.names) :
    ∃ branch ∈ outline.branches, name ∈ branch := by
  induction outline with
  | nil => cases h
  | entry first below next ihbelow ihnext =>
    rcases List.mem_cons.mp h with rfl | h
    · obtain ⟨ending, hending⟩ := List.exists_mem_of_ne_nil _ (endings_ne_nil below)
      exact ⟨_, mem_branches_of_ending hending, List.mem_cons_self⟩
    · rcases List.mem_append.mp h with hbelow | hnext
      · obtain ⟨branch, hbranch, hname⟩ := ihbelow hbelow
        have hending : branch ∈ endings below := by
          rw [endings, if_neg]
          · exact hbranch
          · rintro rfl
            cases hbranch
        exact ⟨_, mem_branches_of_ending hending, List.mem_cons_of_mem _ hname⟩
      · obtain ⟨branch, hbranch, hname⟩ := ihnext hnext
        exact ⟨branch, mem_branches_of_next hbranch, hname⟩

variable {cwd base : Path} {files : List Path}

/-- The names that lead to a file from a base directory. -/
def namesFrom (cwd base file : Path) : List Text := (file.shownFrom cwd base).components

/-- From a base directory above it, the names that lead to a file come after those of the base. -/
theorem namesFrom_spec {file : Path} (hfile : file.IsNormal)
    (habove : (base.absolute cwd).IsAbove file) :
    namesFrom cwd base file ≠ [] ∧
      file = (base.absolute cwd).along (namesFrom cwd base file) := by
  obtain ⟨names, hnames, hpath⟩ := Path.isAbove_iff.mp habove
  have hshown : namesFrom cwd base file = names := by
    rw [namesFrom, Path.shownFrom_eq hfile hpath]
    rfl
  rw [hshown]
  exact ⟨hnames, hpath⟩

/-- The outline of files below a base directory, none of which is above another, has the paths of
the files from there as its branches, and its siblings come in increasing order. -/
theorem ofFiles_spec (hbelow : ∀ file ∈ files, file.IsNormal ∧ (base.absolute cwd).IsAbove file)
    (hapart : ∀ file ∈ files, ∀ other ∈ files, ¬file.IsAbove other) :
    (ofFiles cwd base files).IsOrdered (· < ·) ∧
      ∀ branch, branch ∈ (ofFiles cwd base files).branches ↔
        ∃ file ∈ files, file = (base.absolute cwd).along branch := by
  have hspec (file : Path) (hfile : file ∈ files) :=
    namesFrom_spec (hbelow file hfile).1 (hbelow file hfile).2
  have hmem (file : Path) : file ∈ Path.sort files ↔ file ∈ files := List.mem_mergeSort
  have hfold : ofFiles cwd base files =
      ((Path.sort files).map (namesFrom cwd base)).foldl Outline.add nil := by
    rw [List.foldl_map]
    rfl
  have hmap (branch : List Text) : branch ∈ (Path.sort files).map (namesFrom cwd base) ↔
      ∃ file ∈ files, file = (base.absolute cwd).along branch := by
    simp only [List.mem_map, hmem]
    constructor
    · rintro ⟨file, hfile, rfl⟩
      exact ⟨file, hfile, (hspec file hfile).2⟩
    · rintro ⟨file, hfile, hpath⟩
      exact ⟨file, hfile, Path.along_inj ((hspec file hfile).2.symm.trans hpath)⟩
  have hne : ∀ path ∈ (Path.sort files).map (namesFrom cwd base), path ≠ [] :=
    List.forall_mem_map.mpr fun file hfile => (hspec file ((hmem file).mp hfile)).1
  have hsorted : ((Path.sort files).map (namesFrom cwd base)).Pairwise (· ≤ ·) := by
    rw [List.pairwise_map]
    refine (Path.sort_pairwise files).imp_of_mem fun {file other} hfile hother hle => ?_
    rw [(hspec file ((hmem file).mp hfile)).2, (hspec other ((hmem other).mp hother)).2] at hle
    exact Path.names_le_of_components_le hle
  have hpaths : ∀ path ∈ (Path.sort files).map (namesFrom cwd base),
      IsApart path ((Path.sort files).map (namesFrom cwd base)) := by
    intro path hpath branch hbranch hmeet
    obtain ⟨file, hfile, hfilePath⟩ := (hmap path).mp hpath
    obtain ⟨other, hother, hotherPath⟩ := (hmap branch).mp hbranch
    by_contra hdiffer
    have hfiles : other ≠ file := by
      rintro rfl
      exact hdiffer (Path.along_inj (hotherPath.symm.trans hfilePath))
    have hstart : other.start = file.start := by
      rw [hfilePath, hotherPath]
      rfl
    rcases hmeet with hmeet | hmeet
    · refine hapart other hother file hfile ⟨⟨hstart, ?_⟩, hfiles⟩
      rw [hfilePath, hotherPath]
      exact (List.prefix_append_right_inj _).mpr hmeet
    · refine hapart file hfile other hother ⟨⟨hstart.symm, ?_⟩, hfiles.symm⟩
      rw [hfilePath, hotherPath]
      exact (List.prefix_append_right_inj _).mpr hmeet
  obtain ⟨hordered, hbranches⟩ := foldl_add hne hsorted hpaths
  rw [hfold]
  exact ⟨hordered, fun branch => (hbranches branch).trans (hmap branch)⟩

/-- The drawing of files below a base directory, none of which is above another, is that of an
outline with one branch for each file, and no others: the names that lead to the file from there.
The branches and the siblings come in increasing order, and the drawing does not change with the
order of the files or their repetitions. If each name fits on a line, the drawing tells the
outline. -/
theorem ofFiles_branches (styleName : Text)
    (hbelow : ∀ file ∈ files, file.IsNormal ∧ (base.absolute cwd).IsAbove file)
    (hapart : ∀ file ∈ files, ∀ other ∈ files, ¬file.IsAbove other) :
    (∀ branch, branch ∈ (ofFiles cwd base files).branches ↔
        ∃ file ∈ files, file = (base.absolute cwd).along branch) ∧
      (ofFiles cwd base files).branches.Pairwise (· < ·) ∧
      (ofFiles cwd base files).IsOrdered (· < ·) ∧
      (∀ others : List Path, (∀ file, file ∈ others ↔ file ∈ files) →
        draw (.ofName styleName) (ofFiles cwd base others) =
          draw (.ofName styleName) (ofFiles cwd base files)) ∧
      ((∀ file ∈ files, ∀ name ∈ file.names, '\n' ∉ name) →
        read (.ofName styleName) (draw (.ofName styleName) (ofFiles cwd base files)) =
          some (ofFiles cwd base files)) := by
  obtain ⟨hordered, hbranches⟩ := ofFiles_spec hbelow hapart
  refine ⟨hbranches, hordered.pairwise_branches, hordered, fun others hsame => ?_, fun hlines => ?_⟩
  · have hotherBelow : ∀ file ∈ others, file.IsNormal ∧ (base.absolute cwd).IsAbove file :=
      fun file hfile => hbelow file ((hsame file).mp hfile)
    obtain ⟨hotherOrdered, hotherBranches⟩ := ofFiles_spec hotherBelow
      fun file hfile other hother =>
        hapart file ((hsame file).mp hfile) other ((hsame other).mp hother)
    have houtline : ofFiles cwd base others = ofFiles cwd base files :=
      hotherOrdered.eq_of_branches hordered fun branch => by
        simp only [hotherBranches, hbranches, hsame]
    rw [houtline]
  · refine (read_eq_some_iff (Style.ofName_isTelling styleName)).mpr ⟨rfl, fun name hname => ?_⟩
    obtain ⟨branch, hbranch, hmem⟩ := exists_branch_of_mem_names hname
    obtain ⟨file, hfile, hpath⟩ := (hbranches branch).mp hbranch
    refine hlines file hfile name ?_
    rw [hpath]
    exact List.mem_append_right _ hmem

/-- Files whose directories have similar names, one of them twice, given in no order. -/
def shuffled : List Path :=
  ["/repo/src/b.js", "/repo/main.js", "/repo/src-x/a.js", "/repo/src/a/c.js", "/repo/src/b.js"].map
    fun text => .ofText text.toList

/-- Their drawing has a branch for each file and none for a directory, also from a base that is
given with double dots. -/
theorem ofFiles_branches_shuffled :
    (∀ file ∈ shuffled, file.IsNormal ∧
        ((Path.ofText "lib/..".toList).absolute (.ofText "/repo".toList)).IsAbove file) ∧
      (∀ file ∈ shuffled, ∀ other ∈ shuffled, ¬file.IsAbove other) ∧
      (∀ branch ∈ [["main.js"], ["src", "a", "c.js"], ["src", "b.js"], ["src-x", "a.js"]],
        branch.map String.toList ∈
          (ofFiles (.ofText "/repo".toList) (.ofText "lib/..".toList) shuffled).branches) ∧
      ["src".toList] ∉
        (ofFiles (.ofText "/repo".toList) (.ofText "lib/..".toList) shuffled).branches ∧
      read (.ofName "ascii".toList) (draw (.ofName "ascii".toList)
          (ofFiles (.ofText "/repo".toList) (.ofText "lib/..".toList) shuffled)) =
        some (ofFiles (.ofText "/repo".toList) (.ofText "lib/..".toList) shuffled) := by
  have hbelow : ∀ file ∈ shuffled, file.IsNormal ∧
      ((Path.ofText "lib/..".toList).absolute (.ofText "/repo".toList)).IsAbove file := by decide
  have hapart : ∀ file ∈ shuffled, ∀ other ∈ shuffled, ¬file.IsAbove other := by decide
  have hfiles : ∀ branch ∈ [["main.js"], ["src", "a", "c.js"], ["src", "b.js"], ["src-x", "a.js"]],
      ∃ file ∈ shuffled, file = ((Path.ofText "lib/..".toList).absolute
        (.ofText "/repo".toList)).along (branch.map String.toList) := by decide +kernel
  obtain ⟨hbranches, -, -, -, hread⟩ := ofFiles_branches "ascii".toList hbelow hapart
  refine ⟨hbelow, hapart, fun branch hbranch => (hbranches _).mpr (hfiles branch hbranch), ?_,
    hread (by decide)⟩
  exact fun hdirectory => absurd ((hbranches _).mp hdirectory) (by decide +kernel)

end Outline

end SourceLoom
