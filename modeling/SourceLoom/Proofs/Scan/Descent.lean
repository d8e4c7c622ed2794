import Mathlib.Logic.Relation
import SourceLoom.Proofs.Files.Entries
import SourceLoom.Proofs.Scan.Frozen

/-!
# Descending into directories

A scan goes down from a directory to the entries of it that are directories, no links, and not
excluded, as far as it may list them. It keeps the regular files in the directories that it comes
to, and it fails at the first entry that cannot be examined. Each directory is gone through in the
order of its names, and so the files come in the order of their paths.
-/

namespace SourceLoom

namespace Files

/-- Entries of a node whose entries are well named are so as well. -/
theorem Node.WellNamed.of_entry {node inner : Node} {name : Name} (h : node.WellNamed)
    (hentry : node.entry? name = some inner) : inner.WellNamed := by
  cases h with
  | file permissions bytes => cases hentry
  | link target => cases hentry
  | device permissions => cases hentry
  | directory hnames hall =>
    obtain ⟨before, after, rfl, -⟩ := List.lookup_eq_some_iff.mp hentry
    exact hall (name, inner) (List.mem_append_right _ List.mem_cons_self)

/-- Entries of a node without two entries of one name have no two entries of one name. -/
theorem Node.Distinct.of_entry {node inner : Node} {name : Name} (h : node.Distinct)
    (hentry : node.entry? name = some inner) : inner.Distinct := by
  cases h with
  | file permissions bytes => cases hentry
  | link target => cases hentry
  | device permissions => cases hentry
  | directory hnames hall =>
    obtain ⟨before, after, rfl, -⟩ := List.lookup_eq_some_iff.mp hentry
    exact hall (name, inner) (List.mem_append_right _ List.mem_cons_self)

/-- A file tree as there can be one. -/
structure Tree.WellFormed (tree : Tree) : Prop where
  /-- Every entry has a name that an entry can have. -/
  wellNamed : tree.root.WellNamed
  /-- No directory has two entries of one name. -/
  distinct : tree.root.Distinct
  /-- The working directory is given in normal form. -/
  cwd_isNormal : tree.cwd.IsNormal

/-- A tree whose working directory has the entries that are given, next to a directory that nothing
may be done with. -/
def Tree.besideLocked (entries : List (Name × Node)) : Tree where
  root := .directory .ofDirectory
    [("w".toList, .directory .ofDirectory entries), ("p".toList, .directory (.ofDigit 0) [])]
  cwd := ⟨.root, ["w".toList]⟩

/-- The working directory of such a tree is given in normal form. -/
theorem Tree.besideLocked_cwd_isNormal (entries : List (Name × Node)) :
    (besideLocked entries).cwd.IsNormal := by
  have hcwd : (⟨.root, ["w".toList]⟩ : Path).IsNormal :=
    ⟨rfl, by unfold Path.IsClean; decide, by decide⟩
  exact hcwd

/-- A directory is well named and distinct if its entries are. -/
theorem Node.wellNamed_distinct_directory {permissions : Permissions}
    {entries : List (Name × Node)}
    (hnames : (∀ entry ∈ entries, Path.IsName entry.1) ∧ (entries.map (·.1)).Nodup)
    (hentries : ∀ entry ∈ entries, entry.2.WellNamed ∧ entry.2.Distinct) :
    (directory permissions entries).WellNamed ∧ (directory permissions entries).Distinct :=
  ⟨.directory hnames.1 fun entry hentry => (hentries entry hentry).1,
    .directory hnames.2 fun entry hentry => (hentries entry hentry).2⟩

/-- Such a tree is well formed if the entries are. -/
theorem Tree.besideLocked_wellFormed {entries : List (Name × Node)}
    (hnames : (∀ entry ∈ entries, Path.IsName entry.1) ∧ (entries.map (·.1)).Nodup)
    (hentries : ∀ entry ∈ entries, entry.2.WellNamed ∧ entry.2.Distinct) :
    (besideLocked entries).WellFormed := by
  have hw : Path.IsName "w".toList := by decide
  have hp : Path.IsName "p".toList := by decide
  have hdistinct : ["w".toList, "p".toList].Nodup := by decide
  have hlocked : (Node.directory (.ofDigit 0) []).WellNamed ∧
      (Node.directory (.ofDigit 0) []).Distinct :=
    Node.wellNamed_distinct_directory ⟨nofun, .nil⟩ nofun
  have hroot : (besideLocked entries).root.WellNamed ∧ (besideLocked entries).root.Distinct :=
    Node.wellNamed_distinct_directory
      ⟨List.forall_mem_cons.mpr ⟨hw, List.forall_mem_singleton.mpr hp⟩, hdistinct⟩
      (List.forall_mem_cons.mpr ⟨Node.wellNamed_distinct_directory hnames hentries,
        List.forall_mem_singleton.mpr hlocked⟩)
  exact ⟨hroot.1, hroot.2, besideLocked_cwd_isNormal entries⟩

/-- What a directory lists are names that an entry can have, each of them once. -/
theorem Tree.WellFormed.list_names {tree : Tree} (h : tree.WellFormed) {path : Path}
    {names : List Name} (hlist : tree.list path = .ok names) :
    (∀ name ∈ names, Path.IsName name) ∧ names.Nodup := by
  obtain ⟨permissions, entries, -, hnode, rfl⟩ := Tree.list_eq_ok_iff.mp hlist
  obtain ⟨place, hget⟩ := Tree.exists_get?_of_node hnode
  have hnames := Node.get?_inherits Node.WellNamed.of_entry h.wellNamed hget
  have hdistinct := Node.get?_inherits Node.Distinct.of_entry h.distinct hget
  cases hnames with
  | directory hproper hinner =>
    cases hdistinct with
    | directory hnodup hrest => exact ⟨by simpa using hproper, hnodup⟩

end Files

namespace Path

/-- Entries of a directory with one path have one name. -/
theorem entry_inj {base : Path} {a b : Name} (h : base.entry a = base.entry b) : a = b := by
  have hnames : base.names ++ [a] = base.names ++ [b] := congrArg Path.names h
  exact (List.cons.inj (List.append_cancel_left hnames)).1

/-- Of two paths in one directory the one whose first name there comes first comes first. -/
theorem components_lt {base p q : Path} {a b : Name} {rest more : List Name}
    (hp : p = { base with names := base.names ++ a :: rest })
    (hq : q = { base with names := base.names ++ b :: more }) (h : a < b) :
    p.components < q.components := by
  have hnames : base.names ++ a :: rest < base.names ++ b :: more :=
    List.append_left_lt (List.cons_lt_cons_iff.mpr (Or.inl h))
  subst hp hq
  unfold components
  dsimp only
  split
  · exact hnames
  · exact List.cons_lt_cons_iff.mpr (Or.inr ⟨rfl, hnames⟩)

end Path

namespace Scan

open Files Relation

variable {tree : Tree} {excluded : List Name} {top directory inner path : Path}

/-- A scan goes down from a directory to the entries of it that are directories, no links, and not
excluded. -/
def Descends (tree : Tree) (excluded : List Name) (directory inner : Path) : Prop :=
  ∃ name, Path.IsName name ∧ name ∉ excluded ∧ inner = directory.entry name ∧
    tree.isDirectory inner = .ok true ∧ tree.isLink inner = .ok false

/-- A regular file is in a directory, perhaps through a link. -/
def HasFile (tree : Tree) (directory path : Path) : Prop :=
  ∃ name, Path.IsName name ∧ path = directory.entry name ∧ tree.isFile path = .ok true

/-- A directory can be listed. -/
def Lists (tree : Tree) (directory : Path) : Prop := ∃ names, tree.list directory = .ok names

/-- A scan goes down only from directories that can be listed. -/
def Enters (tree : Tree) (excluded : List Name) (directory inner : Path) : Prop :=
  Lists tree directory ∧ Descends tree excluded directory inner

/-- A scan comes from one directory to another by going down. -/
abbrev Reaches (tree : Tree) (excluded : List Name) : Path → Path → Prop :=
  ReflTransGen (Enters tree excluded)

/-- A scan from a directory comes to an entry that cannot be examined. -/
def Blocked (tree : Tree) (excluded : List Name) (top : Path) (fault : Fault) : Prop :=
  ∃ directory names, Reaches tree excluded top directory ∧ tree.list directory = .ok names ∧
    ∃ name ∈ names, tree.isDirectory (directory.entry name) = .error fault

/-- What is to be found below a directory: regular files in directories that a scan comes to and can
list, in the order of their paths. -/
structure FilesBelow (tree : Tree) (excluded : List Name) (top : Path) (found : List Path) :
    Prop where
  /-- They come in the order of their paths. -/
  sorted : found.Pairwise fun p q => p.components < q.components
  /-- They are the files in the directories that a scan comes to and can list. -/
  mem_iff : ∀ path, path ∈ found ↔
    ∃ directory, Reaches tree excluded top directory ∧ Lists tree directory ∧
      HasFile tree directory path

/-- When a scan goes down to an entry of a directory. -/
theorem enters_entry_iff {name : Name} : Enters tree excluded directory (directory.entry name) ↔
    Lists tree directory ∧ Path.IsName name ∧ name ∉ excluded ∧
      tree.isDirectory (directory.entry name) = .ok true ∧
        tree.isLink (directory.entry name) = .ok false := by
  constructor
  · rintro ⟨hlists, other, hname, hexcluded, hsame, hdirectory, hlink⟩
    cases Path.entry_inj hsame
    exact ⟨hlists, hname, hexcluded, hdirectory, hlink⟩
  · rintro ⟨hlists, hname, hexcluded, hdirectory, hlink⟩
    exact ⟨hlists, name, hname, hexcluded, rfl, hdirectory, hlink⟩

/-- Where a scan comes to lies below where it began. -/
theorem Reaches.names_eq (h : Reaches tree excluded top directory) :
    ∃ names, directory = { top with names := top.names ++ names } := by
  induction h with
  | refl => exact ⟨[], by rw [List.append_nil]⟩
  | tail _ hlast ih =>
    obtain ⟨names, rfl⟩ := ih
    obtain ⟨-, name, -, -, rfl, -, -⟩ := hlast
    exact ⟨names ++ [name], by rw [Path.entry, List.append_assoc]⟩

/-- From a directory that cannot be listed a scan goes nowhere. -/
theorem Reaches.eq_of_not_lists (h : Reaches tree excluded top directory)
    (htop : ¬Lists tree top) : directory = top := by
  rcases h.cases_head with rfl | ⟨next, ⟨hlists, -⟩, -⟩
  · rfl
  · exact absurd hlists htop

/-- In a directory that cannot be listed there is nothing to be found. -/
theorem filesBelow_nil (htop : ¬Lists tree top) : FilesBelow tree excluded top [] where
  sorted := List.Pairwise.nil
  mem_iff path := by
    constructor
    · exact nofun
    · rintro ⟨directory, hreaches, hlists, -⟩
      rw [Reaches.eq_of_not_lists hreaches htop] at hlists
      exact absurd hlists htop

/-- A scan of a directory that cannot be listed examines nothing. -/
theorem not_blocked_of_not_lists (htop : ¬Lists tree top) (fault : Fault) :
    ¬Blocked tree excluded top fault := by
  rintro ⟨directory, names, hreaches, hlist, -⟩
  rw [Reaches.eq_of_not_lists hreaches htop] at hlist
  exact htop ⟨names, hlist⟩

/-- What is found below an entry of a directory: the entry itself, if it is a regular file, and what
is found below it, if the scan goes down to it. -/
structure FilesAt (tree : Tree) (excluded : List Name) (directory : Path) (name : Name)
    (found : List Path) : Prop where
  /-- The files come in the order of their paths. -/
  sorted : found.Pairwise fun p q => p.components < q.components
  /-- They are the entry itself or below it. -/
  mem_iff : ∀ path, path ∈ found ↔
    (path = directory.entry name ∧ tree.isFile path = .ok true) ∨
      (Enters tree excluded directory (directory.entry name) ∧
        ∃ inner, Reaches tree excluded (directory.entry name) inner ∧ Lists tree inner ∧
          HasFile tree inner path)
  /-- The entry could be examined. -/
  examined : ∃ answer, tree.isDirectory (directory.entry name) = .ok answer
  /-- Nothing below it, if the scan goes down to it, could not be examined. -/
  not_blocked : Enters tree excluded directory (directory.entry name) →
    ∀ fault, ¬Blocked tree excluded (directory.entry name) fault

/-- What is found at an entry lies at it or below it. -/
theorem FilesAt.names_eq {name : Name} {found : List Path}
    (h : FilesAt tree excluded directory name found) (hpath : path ∈ found) :
    ∃ rest, path = { directory with names := directory.names ++ name :: rest } := by
  rcases (h.mem_iff path).mp hpath with ⟨rfl, -⟩ | ⟨-, inner, hreaches, -, last, -, rfl, -⟩
  · exact ⟨[], rfl⟩
  · obtain ⟨names, rfl⟩ := Reaches.names_eq hreaches
    refine ⟨names ++ [last], ?_⟩
    simp [Path.entry]

/-- What is found at the entries of a directory is what is found below the directory. -/
theorem filesBelow_flatMap (hwell : tree.WellFormed) (hdirectory : directory.IsNormal)
    {names : List Name} (hlist : tree.list directory = .ok names) {parts : Name → List Path}
    (hparts : ∀ name ∈ Text.sort names, FilesAt tree excluded directory name (parts name)) :
    FilesBelow tree excluded directory ((Text.sort names).flatMap parts) where
  sorted := by
    have hnodup := (hwell.list_names hlist).2
    rw [List.pairwise_flatMap]
    refine ⟨fun name hname => (hparts name hname).sorted,
      (Text.sort_pairwise_lt hnodup).imp_of_mem ?_⟩
    intro a b ha hb hab p hp q hq
    obtain ⟨rest, hp⟩ := (hparts a ha).names_eq hp
    obtain ⟨more, hq⟩ := (hparts b hb).names_eq hq
    exact Path.components_lt hp hq hab
  mem_iff path := by
    have hlists : Lists tree directory := ⟨names, hlist⟩
    have hlisted {name : Name} (hname : Path.IsName name) {property : Node → Bool}
        (h : tree.leadsTo true property (directory.entry name) = .ok true) :
        name ∈ Text.sort names :=
      Text.mem_sort.mpr (Tree.mem_list_of_leadsTo hdirectory.isAbsolute hlist hname h).1
    rw [List.mem_flatMap]
    constructor
    · rintro ⟨name, hname, hpath⟩
      have hproper := (hwell.list_names hlist).1 name (Text.mem_sort.mp hname)
      rcases ((hparts name hname).mem_iff path).mp hpath with
        ⟨hself, hfile⟩ | ⟨henters, inner, hreaches, hinner, hfile⟩
      · exact ⟨directory, .refl, hlists, name, hproper, hself, hfile⟩
      · exact ⟨inner, hreaches.head henters, hinner, hfile⟩
    · rintro ⟨inner, hreaches, hinner, hfile⟩
      rcases hreaches.cases_head with rfl | ⟨next, henters, hrest⟩
      · obtain ⟨name, hname, rfl, hisFile⟩ := hfile
        have hmem := hlisted hname hisFile
        exact ⟨name, hmem, ((hparts name hmem).mem_iff _).mpr (Or.inl ⟨rfl, hisFile⟩)⟩
      · have hdescends := henters.2
        obtain ⟨name, hname, -, rfl, hisDirectory, -⟩ := hdescends
        have hmem := hlisted hname hisDirectory
        exact ⟨name, hmem, ((hparts name hmem).mem_iff path).mpr
          (Or.inr ⟨henters, inner, hrest, hinner, hfile⟩)⟩

/-- Nothing that a scan of a directory comes to cannot be examined, if none of its entries, and
nothing below them. -/
theorem not_blocked_of_filesAt (hdirectory : directory.IsNormal) {names : List Name}
    (hlist : tree.list directory = .ok names) {parts : Name → List Path}
    (hparts : ∀ name ∈ Text.sort names, FilesAt tree excluded directory name (parts name))
    (fault : Fault) : ¬Blocked tree excluded directory fault := by
  rintro ⟨inner, others, hreaches, hothers, name, hname, hfault⟩
  have hpart {name : Name} (hname : name ∈ names) := hparts name (Text.mem_sort.mpr hname)
  rcases hreaches.cases_head with rfl | ⟨next, henters, hrest⟩
  · cases hlist.symm.trans hothers
    obtain ⟨answer, hanswer⟩ := (hpart hname).examined
    cases hanswer.symm.trans hfault
  · have hdescends := henters.2
    obtain ⟨first, hfirst, -, rfl, hisDirectory, -⟩ := hdescends
    have hlisted :=
      (Tree.mem_list_of_leadsTo hdirectory.isAbsolute hlist hfirst hisDirectory).1
    exact (hpart hlisted).not_blocked henters fault
      ⟨inner, others, hrest, hothers, name, hname, hfault⟩

/-- What a scan of a directory comes to: the files below it, if everything that it comes to can be
examined, and the fault of something that cannot be examined otherwise. -/
def Settles (tree : Tree) (excluded : List Name) (top : Path)
    (answer : ExceptT Fault Id (List Path)) : Prop :=
  (∃ found, answer = pure found ∧ FilesBelow tree excluded top found ∧
      ∀ fault, ¬Blocked tree excluded top fault) ∨
    ∃ fault, answer = throw fault ∧ Blocked tree excluded top fault

section Visiting

variable {levels : Nat} {name : Name}

/-- An entry that the scan does not go down to and that is no regular file gives nothing. -/
theorem filesAt_nil (henters : ¬Enters tree excluded directory (directory.entry name))
    (hfile : tree.isFile (directory.entry name) = .ok false)
    (hexamined : ∃ answer, tree.isDirectory (directory.entry name) = .ok answer) :
    FilesAt tree excluded directory name [] where
  sorted := List.Pairwise.nil
  mem_iff path := by
    constructor
    · exact nofun
    · rintro (⟨rfl, hisFile⟩ | ⟨h, -⟩)
      · cases hisFile.symm.trans hfile
      · exact absurd h henters
  examined := hexamined
  not_blocked h := absurd h henters

/-- A regular file is all that its entry gives. -/
theorem filesAt_file (hdirectory : tree.isDirectory (directory.entry name) = .ok false)
    (hfile : tree.isFile (directory.entry name) = .ok true) :
    FilesAt tree excluded directory name [directory.entry name] := by
  have henters : ¬Enters tree excluded directory (directory.entry name) := by
    rw [enters_entry_iff, hdirectory]
    simp
  refine ⟨List.pairwise_singleton _ _, fun path => ?_, ⟨false, hdirectory⟩,
    fun h => absurd h henters⟩
  rw [List.mem_singleton]
  constructor
  · rintro rfl
    exact Or.inl ⟨rfl, hfile⟩
  · rintro (⟨hself, -⟩ | ⟨h, -⟩)
    · exact hself
    · exact absurd h henters

/-- A directory that the scan goes down to gives what is below it. -/
theorem FilesBelow.filesAt {found : List Path}
    (h : FilesBelow tree excluded (directory.entry name) found)
    (henters : Enters tree excluded directory (directory.entry name))
    (hblocked : ∀ fault, ¬Blocked tree excluded (directory.entry name) fault) :
    FilesAt tree excluded directory name found := by
  obtain ⟨-, -, -, hdirectory, -⟩ := enters_entry_iff.mp henters
  refine ⟨h.sorted, fun path => ?_, ⟨true, hdirectory⟩, fun _ => hblocked⟩
  rw [h.mem_iff]
  constructor
  · exact fun hbelow => Or.inr ⟨henters, hbelow⟩
  · rintro (⟨rfl, hfile⟩ | ⟨-, hbelow⟩)
    · cases hfile.symm.trans (Tree.isFile_of_isDirectory hdirectory)
    · exact hbelow

/-- Visiting an entry that is listed gives the files at it, or the fault of something below the
directory that cannot be examined, if a scan of the entry settles in this way. -/
theorem visit_cases {names : List Name} (hdirectory : directory.IsNormal)
    (hlist : tree.list directory = .ok names) (hmem : name ∈ names) (hname : Path.IsName name)
    (hbelow : Enters tree excluded directory (directory.entry name) →
      Settles tree excluded (directory.entry name)
        (filesBelow tree.frozen excluded levels (directory.entry name))) :
    (∃ found, visit tree.frozen excluded levels name (directory.entry name) = pure found ∧
        FilesAt tree excluded directory name found) ∨
      ∃ fault, visit tree.frozen excluded levels name (directory.entry name) = throw fault ∧
        Blocked tree excluded directory fault := by
  cases hanswer : tree.isDirectory (directory.entry name) with
  | error fault =>
    exact Or.inr ⟨fault, visit_of_isDirectory_eq_error hanswer, directory, names, .refl, hlist,
      name, hmem, hanswer⟩
  | ok answer =>
    cases answer with
    | false =>
      obtain ⟨isFile, hfile⟩ := Tree.exists_leadsTo hanswer Node.isFile
      refine Or.inl ⟨_, visit_of_isDirectory_eq_false hanswer hfile, ?_⟩
      cases isFile with
      | true => exact filesAt_file hanswer hfile
      | false =>
        refine filesAt_nil ?_ hfile ⟨false, hanswer⟩
        rw [enters_entry_iff, hanswer]
        simp
    | true =>
      have hfile := Tree.isFile_of_isDirectory hanswer
      obtain ⟨-, isLink, hlink⟩ :=
        Tree.mem_list_of_leadsTo hdirectory.isAbsolute hlist hname hanswer
      rw [visit_of_isDirectory_eq_true hanswer hlink]
      by_cases hexcluded : name ∈ excluded
      · rw [if_pos hexcluded]
        refine Or.inl ⟨[], rfl, filesAt_nil ?_ hfile ⟨true, hanswer⟩⟩
        exact fun henters => (enters_entry_iff.mp henters).2.2.1 hexcluded
      · rw [if_neg hexcluded]
        cases isLink with
        | true =>
          refine Or.inl ⟨[], rfl, filesAt_nil ?_ hfile ⟨true, hanswer⟩⟩
          rw [enters_entry_iff, hlink]
          simp
        | false =>
          have henters : Enters tree excluded directory (directory.entry name) :=
            enters_entry_iff.mpr ⟨⟨names, hlist⟩, hname, hexcluded, hanswer, hlink⟩
          rcases hbelow henters with ⟨found, hfound, hfiles, hclear⟩ | ⟨fault, hfault, hblocked⟩
          · exact Or.inl ⟨found, hfound, hfiles.filesAt henters hclear⟩
          · obtain ⟨inner, others, hreaches, hrest⟩ := hblocked
            exact Or.inr ⟨fault, hfault, inner, others, hreaches.head henters, hrest⟩

end Visiting

/-- A scan of a directory settles, if it may go down as many levels as the path of a directory may
still get names. -/
theorem settles_filesBelow (hwell : tree.WellFormed) {levels : Nat} (hnormal : directory.IsNormal)
    (hdirectory : tree.isDirectory directory = .ok true)
    (hlevels : pathLimit ≤ levels + directory.names.length) :
    Settles tree excluded directory (filesBelow tree.frozen excluded levels directory) := by
  induction levels generalizing directory with
  | zero =>
    -- A directory has fewer names than that, so the scan never gets here.
    obtain ⟨node, hnode, -⟩ := Tree.exists_node_of_leadsTo hdirectory
    have hlength := Tree.length_names_lt hnormal hnode
    omega
  | succ levels ih =>
    rw [filesBelow_succ]
    rcases Tree.list_cases hdirectory with ⟨names, hlist⟩ | hdenied
    · rw [hlist]
      have hnames := (hwell.list_names hlist).1
      have hvisit : ∀ name ∈ Text.sort names,
          (∃ found, visit tree.frozen excluded levels name (directory.entry name) = pure found ∧
              FilesAt tree excluded directory name found) ∨
            ∃ fault, visit tree.frozen excluded levels name (directory.entry name) = throw fault ∧
              Blocked tree excluded directory fault := by
        intro name hname
        have hmem := Text.mem_sort.mp hname
        refine visit_cases hnormal hlist hmem (hnames name hmem) ?_
        intro henters
        obtain ⟨-, -, -, hisDirectory, -⟩ := enters_entry_iff.mp henters
        refine ih (hnormal.entry (hnames name hmem)) hisDirectory ?_
        simp only [Path.entry, List.length_append, List.length_singleton]
        omega
      rcases gather_cases hvisit with ⟨parts, hparts, hgather⟩ | ⟨fault, hgather, hblocked⟩
      · exact Or.inl ⟨_, hgather, filesBelow_flatMap hwell hnormal hlist hparts,
          not_blocked_of_filesAt hnormal hlist hparts⟩
      · exact Or.inr ⟨fault, hgather, hblocked⟩
    · have hnot : ¬Lists tree directory := by
        rintro ⟨names, hlist⟩
        cases hlist.symm.trans hdenied
      rw [hdenied]
      exact Or.inl ⟨[], rfl, filesBelow_nil hnot, not_blocked_of_not_lists hnot⟩

end Scan

end SourceLoom
