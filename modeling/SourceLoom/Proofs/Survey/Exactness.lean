import SourceLoom.Proofs.Outline.Branches
import SourceLoom.Proofs.Run.Asking
import SourceLoom.Proofs.Survey.Visible

/-!
# What an outline of a directory contains

If nothing fails that an outline of a directory asks about, it contains exactly the entries that are
to be shown, each under the keys that lead to it, and nothing is said on the way. Whether a deep
directory is kept is only known when the outline below it is: it is kept if that has any entry.
Siblings come in the order of their names, which need not be the order of their keys.
-/

namespace SourceLoom

namespace Outline

/-- The keys that lead from the top to each entry. -/
def paths : Outline → List (List Text)
  | nil => []
  | entry name below next => [name] :: (paths below).map (name :: ·) ++ paths next

variable {below next : Outline} {name : Text} {row : List Text}

/-- Keys lead to the first entry, to an entry below it, or to one of those after it. -/
theorem mem_paths_entry : row ∈ paths (entry name below next) ↔
    row = [name] ∨ (∃ rest ∈ below.paths, row = name :: rest) ∨ row ∈ next.paths := by
  simp [paths, eq_comm]

/-- Only an empty outline has no entries. -/
theorem ne_nil_iff_exists_path {outline : Outline} :
    outline ≠ nil ↔ ∃ row, row ∈ outline.paths := by
  cases outline with
  | nil => exact ⟨fun h => absurd rfl h, fun ⟨row, hrow⟩ => nomatch hrow⟩
  | entry name below next => exact ⟨fun _ => ⟨[name], List.mem_cons_self⟩, fun _ => nofun⟩

end Outline

namespace Survey

open Files

variable {tree : Tree} {levels : Nat} {directory : Path} {name : Name} {names : List Name}

/-- Nothing fails that an outline of a directory asks about, so many levels deep. -/
def isUnhindered (tree : Tree) : (levels : Nat) → Path → Bool
  | 0, _ => true
  | levels + 1, directory =>
    match tree.list directory with
    | .error _ => false
    | .ok names => names.all fun name =>
      isHidden hiddenNames name ||
        match tree.isDirectory (directory.entry name) with
        | .error _ => false
        | .ok isDirectory => !isDirectory || isUnhindered tree levels (directory.entry name)

/-- If nothing fails, a directory can be listed, its visible entries can be examined, and nothing
fails in those that are directories. -/
theorem exists_list_of_isUnhindered (h : isUnhindered tree (levels + 1) directory = true) :
    ∃ names, tree.list directory = .ok names ∧ ∀ name ∈ names, isHidden hiddenNames name = false →
      ∃ isDirectory, tree.isDirectory (directory.entry name) = .ok isDirectory ∧
        (isDirectory = true → isUnhindered tree levels (directory.entry name) = true) := by
  unfold isUnhindered at h
  cases hlist : tree.list directory with
  | error fault =>
    rw [hlist] at h
    cases h
  | ok names =>
    rw [hlist] at h
    refine ⟨names, rfl, fun name hname hvisible => ?_⟩
    have hentry := List.all_eq_true.mp h name hname
    rw [hvisible, Bool.false_or] at hentry
    cases hkind : tree.isDirectory (directory.entry name) with
    | error fault =>
      rw [hkind] at hentry
      cases hentry
    | ok isDirectory =>
      rw [hkind] at hentry
      refine ⟨isDirectory, rfl, fun hdirectory => ?_⟩
      subst hdirectory
      exact hentry

section Steps

variable {tell : Event → StateM Tree Unit} {below : Path → ExceptT Fault (StateM Tree) Outline}
  {level : Int} {inner next : Outline}

/-- A file tree answers whether a path leads to a directory. -/
theorem run_attempt_isDirectory (path : Path) :
    (attempt (Tree.system.isDirectory path) : ExceptT Fault (StateM Tree) _).run.run tree =
      (.ok (tree.isDirectory path), tree) :=
  rfl

/-- A file tree answers what is in a directory. -/
theorem run_attempt_list (path : Path) :
    (attempt (Tree.system.list path) : ExceptT Fault (StateM Tree) _).run.run tree =
      (.ok (tree.list path), tree) :=
  rfl

/-- A hidden name is passed over. -/
theorem entries_of_isHidden (h : isHidden hiddenNames name = true) :
    entries Tree.system tell below level directory (name :: names) =
      entries Tree.system tell below level directory names := by
  rw [entries, if_pos h]

/-- An entry that is no directory comes before the rest, with nothing below it. -/
theorem run_entries_plain (hvisible : isHidden hiddenNames name = false)
    (hkind : tree.isDirectory (directory.entry name) = .ok false)
    (hnext : (entries Tree.system tell below level directory names).run.run tree =
      (.ok next, tree)) :
    (entries Tree.system tell below level directory (name :: names)).run.run tree =
      (.ok (.entry name .nil next), tree) := by
  rw [entries, if_neg (by simp [hvisible]), Run.Rehearsal.run_bind, run_attempt_isDirectory, hkind]
  dsimp only
  rw [Run.Rehearsal.run_bind, hnext]
  rfl

/-- A directory comes before the rest, with the outline of what is in it, unless that is empty and
the directory is too deep. -/
theorem run_entries_directory (hvisible : isHidden hiddenNames name = false)
    (hkind : tree.isDirectory (directory.entry name) = .ok true)
    (hbelow : (below (directory.entry name)).run.run tree = (.ok inner, tree))
    (hnext : (entries Tree.system tell below level directory names).run.run tree =
      (.ok next, tree)) :
    (entries Tree.system tell below level directory (name :: names)).run.run tree =
      (.ok (if inner ≠ .nil ∨ level < alwaysShown then .entry (keyOf name true) inner next
        else next), tree) := by
  rw [entries, if_neg (by simp [hvisible]), Run.Rehearsal.run_bind, run_attempt_isDirectory, hkind]
  dsimp only
  rw [Run.Rehearsal.run_bind, hbelow]
  dsimp only
  rw [Run.Rehearsal.run_bind, hnext]
  dsimp only
  split <;> rfl

end Steps

section Pictures

variable {kept : Int} {outline inner : Outline}

/-- An outline shows what is in a directory so many levels deep, and its siblings come in the order
of their names. -/
def IsOutlineOf (tree : Tree) (levels : Nat) (kept : Int) (directory : Path) (outline : Outline) :
    Prop :=
  outline.IsOrdered NameBefore ∧ ∀ row, row ∈ outline.paths ↔ Shows tree levels kept directory row

/-- An outline shows the entries of a directory that have some names, and what is in them. -/
structure Pictures (tree : Tree) (levels : Nat) (kept : Int) (directory : Path) (names : List Name)
    (outline : Outline) : Prop where
  /-- Siblings come in the order of their names. -/
  ordered : outline.IsOrdered NameBefore
  /-- The entries at the top have these names. -/
  tops : ∀ key ∈ outline.tops, nameOf key ∈ names
  /-- Keys lead to an entry of the outline exactly if they lead to an entry that is shown. -/
  mem_iff : ∀ row, row ∈ outline.paths ↔
    ∃ name ∈ names, ShowsUnder tree levels kept directory name row

/-- The empty outline shows no entries. -/
theorem Pictures.nil : Pictures tree levels kept directory [] .nil where
  ordered := trivial
  tops := nofun
  mem_iff _ := ⟨nofun, fun ⟨_, hname, _⟩ => nomatch hname⟩

/-- An outline shows the entries with a further name if nothing is shown along that. -/
theorem Pictures.skip (h : Pictures tree levels kept directory names outline)
    (hname : ∀ row, ¬ShowsUnder tree levels kept directory name row) :
    Pictures tree levels kept directory (name :: names) outline where
  ordered := h.ordered
  tops key hkey := List.mem_cons_of_mem _ (h.tops key hkey)
  mem_iff row := by
    rw [h.mem_iff]
    simp [hname]

/-- With an entry at its front an outline shows the entries with a further name, if that comes
before the others, and along it the entry and what is below it are shown. -/
theorem Pictures.entry (isDirectory : Bool)
    (h : Pictures tree levels kept directory names outline) (hslash : '/' ∉ name)
    (hfirst : ∀ other ∈ names, name < other) (hinner : inner.IsOrdered NameBefore)
    (hshown : ∀ row, ShowsUnder tree levels kept directory name row ↔
      row = [keyOf name isDirectory] ∨ ∃ rest ∈ inner.paths, row = keyOf name isDirectory :: rest) :
    Pictures tree levels kept directory (name :: names)
      (.entry (keyOf name isDirectory) inner outline) where
  ordered := by
    refine ⟨fun key hkey => ?_, hinner, h.ordered⟩
    rw [NameBefore, nameOf_keyOf hslash]
    exact hfirst _ (h.tops key hkey)
  tops key hkey := by
    rcases List.mem_cons.mp hkey with rfl | hkey
    · rw [nameOf_keyOf hslash]
      exact List.mem_cons_self
    · exact List.mem_cons_of_mem _ (h.tops key hkey)
  mem_iff row := by
    rw [Outline.mem_paths_entry, h.mem_iff, ← or_assoc, ← hshown]
    simp

/-- An entry that is no directory is shown with nothing below it. -/
theorem Pictures.plain (h : Pictures tree (levels + 1) kept directory names outline)
    (hslash : '/' ∉ name) (hfirst : ∀ other ∈ names, name < other)
    (hlisted : IsListed tree directory name)
    (hkind : tree.isDirectory (directory.entry name) = .ok false) :
    Pictures tree (levels + 1) kept directory (name :: names) (.entry name .nil outline) :=
  h.entry false hslash hfirst trivial fun row => by
    rw [showsUnder_iff_of_plain hlisted hkind]
    simp [keyOf, Outline.paths]

/-- A directory is shown with the outline of what is in it, unless that is empty and the directory
is too deep; then nothing is shown along its name. -/
theorem Pictures.descend {level : Int}
    (h : Pictures tree (levels + 1) (alwaysShown - level) directory names outline)
    (hslash : '/' ∉ name) (hfirst : ∀ other ∈ names, name < other)
    (hlisted : IsListed tree directory name)
    (hkind : tree.isDirectory (directory.entry name) = .ok true)
    (hinner : IsOutlineOf tree levels (alwaysShown - level - 1) (directory.entry name) inner) :
    Pictures tree (levels + 1) (alwaysShown - level) directory (name :: names)
      (if inner ≠ .nil ∨ level < alwaysShown then .entry (keyOf name true) inner outline
        else outline) := by
  obtain ⟨hordered, hinner⟩ := hinner
  -- The outline inside is empty exactly if nothing in the directory is shown, however deep it is.
  have hworthwhile : (inner ≠ .nil ∨ level < alwaysShown) ↔
      1 ≤ alwaysShown - level ∨ HasPlain tree levels (directory.entry name) := by
    rw [worthwhile_iff, Outline.ne_nil_iff_exists_path]
    simp only [hinner]
    rw [or_comm]
    exact or_congr_left (by omega)
  have hunder (row : List Text) :
      ShowsUnder tree (levels + 1) (alwaysShown - level) directory name row ↔
        row = [keyOf name true] ∧ (inner ≠ .nil ∨ level < alwaysShown) ∨
          ∃ rest ∈ inner.paths, row = keyOf name true :: rest := by
    rw [showsUnder_iff_of_directory hlisted hkind, hworthwhile]
    simp only [hinner]
  split
  · rename_i hkept
    exact h.entry true hslash hfirst hordered fun row => by
      rw [hunder, and_iff_left hkept]
  · rename_i hdropped
    refine h.skip fun row hrow => ?_
    rcases (hunder row).mp hrow with ⟨-, hkept⟩ | ⟨rest, hrest, -⟩
    · exact hdropped hkept
    · exact hdropped (Or.inl (Outline.ne_nil_iff_exists_path.mpr ⟨rest, hrest⟩))

end Pictures

section Runs

variable {tell : Event → StateM Tree Unit} {below : Path → ExceptT Fault (StateM Tree) Outline}
  {level : Int} {listed : List Name}

/-- The entries of a directory that have some of the listed names are outlined, if they can be
examined and those that are directories are outlined. -/
theorem exists_run_entries (hlist : tree.list directory = .ok listed)
    (hlisted : ∀ name ∈ names, name ∈ listed) (hslash : ∀ name ∈ names, '/' ∉ name)
    (hsorted : names.Pairwise (· < ·))
    (hentries : ∀ name ∈ names, isHidden hiddenNames name = false →
      ∃ isDirectory, tree.isDirectory (directory.entry name) = .ok isDirectory ∧
        (isDirectory = true → ∃ inner,
          (below (directory.entry name)).run.run tree = (.ok inner, tree) ∧
            IsOutlineOf tree levels (alwaysShown - level - 1) (directory.entry name) inner)) :
    ∃ outline, (entries Tree.system tell below level directory names).run.run tree =
        (.ok outline, tree) ∧
      Pictures tree (levels + 1) (alwaysShown - level) directory names outline := by
  induction names with
  | nil => exact ⟨.nil, rfl, .nil⟩
  | cons name names ih =>
    obtain ⟨hname, hlisted⟩ := List.forall_mem_cons.mp hlisted
    obtain ⟨hproper, hslash⟩ := List.forall_mem_cons.mp hslash
    obtain ⟨hentry, hentries⟩ := List.forall_mem_cons.mp hentries
    obtain ⟨hfirst, hsorted⟩ := List.pairwise_cons.mp hsorted
    obtain ⟨next, hnext, hpictures⟩ := ih hlisted hslash hsorted hentries
    cases hhidden : isHidden hiddenNames name with
    | true =>
      refine ⟨next, by rw [entries_of_isHidden hhidden, hnext], hpictures.skip fun row hrow => ?_⟩
      obtain ⟨-, -, -, hvisible⟩ := hrow.isListed
      cases hhidden.symm.trans hvisible
    | false =>
      have hvisible : IsListed tree directory name := ⟨listed, hlist, hname, hhidden⟩
      obtain ⟨isDirectory, hkind, hinner⟩ := hentry hhidden
      cases isDirectory with
      | false =>
        exact ⟨_, run_entries_plain hhidden hkind hnext,
          hpictures.plain hproper hfirst hvisible hkind⟩
      | true =>
        obtain ⟨inner, hbelow, hinner⟩ := hinner rfl
        exact ⟨_, run_entries_directory hhidden hkind hbelow hnext,
          hpictures.descend hproper hfirst hvisible hkind hinner⟩

/-- If nothing fails, the outline of a directory shows what is in it. -/
theorem exists_run_outlineFrom (hwell : tree.WellFormed)
    (h : isUnhindered tree levels directory = true) :
    ∃ outline, (outlineFrom Tree.system tell levels level directory).run.run tree =
        (.ok outline, tree) ∧
      IsOutlineOf tree levels (alwaysShown - level) directory outline := by
  induction levels generalizing level directory with
  | zero =>
    exact ⟨.nil, rfl, trivial, fun row => ⟨nofun, fun hrow => absurd hrow not_shows_zero⟩⟩
  | succ levels ih =>
    obtain ⟨listed, hlist, hentries⟩ := exists_list_of_isUnhindered h
    obtain ⟨hnames, hnodup⟩ := hwell.list_names hlist
    have hrun : ∃ outline,
        (entries Tree.system tell (outlineFrom Tree.system tell levels (level + 1)) level directory
          (Text.sort listed)).run.run tree = (.ok outline, tree) ∧
        Pictures tree (levels + 1) (alwaysShown - level) directory (Text.sort listed) outline := by
      refine exists_run_entries hlist (fun name => Text.mem_sort.mp)
        (fun name hname => (hnames name (Text.mem_sort.mp hname)).2.2.2)
        (Text.sort_pairwise_lt hnodup) fun name hname hvisible => ?_
      obtain ⟨isDirectory, hkind, hinner⟩ := hentries name (Text.mem_sort.mp hname) hvisible
      refine ⟨isDirectory, hkind, fun hdirectory => ?_⟩
      -- One level further down one level less is always shown.
      rw [Int.sub_sub]
      exact ih (hinner hdirectory)
    obtain ⟨outline, hrun, hpictures⟩ := hrun
    refine ⟨outline, ?_, hpictures.ordered, fun row => ?_⟩
    · rw [outlineFrom, Run.Rehearsal.run_bind, run_attempt_list, hlist]
      exact hrun
    · rw [hpictures.mem_iff, shows_iff_exists_showsUnder]
      constructor
      · exact fun ⟨name, _, hunder⟩ => ⟨name, hunder⟩
      · rintro ⟨name, hunder⟩
        obtain ⟨names, hsame, hname, -⟩ := hunder.isListed
        cases hlist.symm.trans hsame
        exact ⟨name, Text.mem_sort.mpr hname, hunder⟩

end Runs

/-- Visible names are names that an entry can have. -/
theorem Visible.isName (hwell : tree.WellFormed) (h : Visible tree directory names) :
    ∀ name ∈ names, Path.IsName name := by
  have hlisted {directory : Path} {name : Name} (h : IsListed tree directory name) :
      Path.IsName name := by
    obtain ⟨names, hlist, hname, -⟩ := h
    exact (hwell.list_names hlist).1 name hname
  induction h with
  | here hfirst => exact List.forall_mem_singleton.mpr (hlisted hfirst)
  | inside hfirst _ _ ih => exact List.forall_mem_cons.mpr ⟨hlisted hfirst, ih⟩

/-- If nothing fails that the outline of a directory asks about, it contains exactly the entries
that are shown, down to its depth: each under the keys that lead to it, in which a slash ends the
names of directories and no others. Siblings come in the order of their names. -/
theorem outline_exact (hwell : tree.WellFormed) (tell : Event → StateM Tree Unit) (depth : Nat)
    (h : isUnhindered tree depth directory = true) :
    ∃ found, (outline Tree.system tell depth 0 directory).run.run tree = (.ok found, tree) ∧
      (∀ names isDirectory, (∀ name ∈ names, '/' ∉ name) →
        (keysOf names isDirectory ∈ found.paths ↔
          IsShown tree depth alwaysShown directory names isDirectory)) ∧
      (∀ row ∈ found.paths, ∃ names isDirectory, (∀ name ∈ names, '/' ∉ name) ∧
        row = keysOf names isDirectory) ∧
      found.IsOrdered NameBefore := by
  have hdepth : ((depth : Int) - 0).toNat = depth := by rw [Int.sub_zero, Int.toNat_natCast]
  obtain ⟨found, hrun, hordered, hfound⟩ : ∃ found,
      (outlineFrom Tree.system tell depth 0 directory).run.run tree = (.ok found, tree) ∧
        IsOutlineOf tree depth (alwaysShown - 0) directory found :=
    exists_run_outlineFrom hwell h
  rw [Int.sub_zero] at hfound
  have hproper {names : List Name} {isDirectory : Bool}
      (hshown : IsShown tree depth alwaysShown directory names isDirectory) :
      ∀ name ∈ names, '/' ∉ name := fun name hname =>
    (hshown.visible.isName hwell name hname).2.2.2
  refine ⟨found, by rw [outline, hdepth, hrun], ?_, fun row hrow => ?_, hordered⟩
  · intro names isDirectory hslash
    rw [hfound]
    constructor
    · rintro ⟨others, other, hkeys, hshown⟩
      have hnames : names = others := by
        rw [← map_nameOf_keysOf hslash isDirectory, hkeys, map_nameOf_keysOf (hproper hshown)]
      subst hnames
      rwa [keysOf_kind_inj hshown.visible.ne_nil hkeys]
    · exact fun hshown => ⟨names, isDirectory, rfl, hshown⟩
  · obtain ⟨names, isDirectory, rfl, hshown⟩ := (hfound row).mp hrow
    exact ⟨names, isDirectory, hproper hshown, rfl⟩

/-- A directory with a hidden directory and with a link to another one, two levels below which are a
file and an empty directory. -/
def nested : Tree := .besideLocked
  [("node_modules".toList, .directory .ofDirectory [("x.js".toList, .file .ofFile [])]),
    ("again".toList, .link "a".toList),
    ("a".toList, .directory .ofDirectory [("b".toList, .directory .ofDirectory
      [("c".toList, .directory .ofDirectory []), ("x.js".toList, .file .ofFile [])])])]

/-- Three levels deep the outline of it goes on behind the link to the file, but neither to the
empty directory nor to the hidden one. -/
theorem outline_exact_nested : nested.WellFormed ∧
    isUnhindered nested 3 (Path.ofText "/w".toList) = true ∧ ∃ found,
      (outline Tree.system (fun _ => pure ()) 3 0 (Path.ofText "/w".toList)).run.run nested =
        (.ok found, nested) ∧
      ["again/", "b/", "x.js"].map String.toList ∈ found.paths ∧
      ["again/", "b/", "c/"].map String.toList ∉ found.paths ∧
      ["node_modules/"].map String.toList ∉ found.paths := by
  have hwell : nested.WellFormed := by
    refine Tree.besideLocked_wellFormed (by decide) ?_
    refine List.forall_mem_cons.mpr ⟨Node.wellNamed_distinct_directory (by decide) ?_,
      List.forall_mem_cons.mpr ⟨⟨.link _, .link _⟩,
        List.forall_mem_singleton.mpr (Node.wellNamed_distinct_directory (by decide) ?_)⟩⟩
    · exact List.forall_mem_singleton.mpr ⟨.file _ _, .file _ _⟩
    · refine List.forall_mem_singleton.mpr (Node.wellNamed_distinct_directory (by decide) ?_)
      exact List.forall_mem_cons.mpr ⟨Node.wellNamed_distinct_directory ⟨nofun, .nil⟩ nofun,
        List.forall_mem_singleton.mpr ⟨.file _ _, .file _ _⟩⟩
  have h : isUnhindered nested 3 (Path.ofText "/w".toList) = true := by decide +kernel
  obtain ⟨found, hrun, hfound, -⟩ := outline_exact hwell (fun _ => pure ()) 3 h
  have hagain : IsListed nested (Path.ofText "/w".toList) "again".toList :=
    ⟨["node_modules", "again", "a"].map String.toList, by decide +kernel, by decide,
      by decide +kernel⟩
  have hb : IsListed nested (Path.ofText "/w/again".toList) "b".toList :=
    ⟨["b"].map String.toList, by decide +kernel, by decide, by decide +kernel⟩
  have hx : IsListed nested (Path.ofText "/w/again/b".toList) "x.js".toList :=
    ⟨["c", "x.js"].map String.toList, by decide +kernel, by decide, by decide +kernel⟩
  refine ⟨hwell, h, found, hrun, ?_, ?_, ?_⟩
  · refine (hfound (["again", "b", "x.js"].map String.toList) false (by decide)).mpr
      ⟨by decide, ?_, by decide +kernel, nofun⟩
    exact .inside hagain (by decide +kernel) (.inside hb (by decide +kernel) (.here hx))
  · intro hmem
    have hshown := (hfound (["again", "b", "c"].map String.toList) true (by decide)).mp hmem
    have hlist : nested.list (Path.ofText "/w/again/b/c".toList) = .ok [] := by decide +kernel
    obtain hfirst | ⟨more, -, hvisible, -⟩ := hshown.worthwhile rfl
    · exact absurd hfirst (by decide)
    · obtain ⟨name, more, rfl⟩ := List.exists_cons_of_ne_nil hvisible.ne_nil
      obtain ⟨names, hnames, hname, -⟩ := hvisible.isListed
      cases hlist.symm.trans hnames
      cases hname
  · intro hmem
    have hshown := (hfound (["node_modules"].map String.toList) true (by decide)).mp hmem
    obtain ⟨-, -, -, hhidden⟩ := hshown.visible.isListed
    exact absurd hhidden (by decide +kernel)

end Survey

end SourceLoom
