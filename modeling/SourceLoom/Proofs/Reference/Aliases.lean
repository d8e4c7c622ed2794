import SourceLoom.Proofs.Path.Pieces
import SourceLoom.Proofs.Reference.Candidates
import SourceLoom.Proofs.Settings.Validity

/-!
# Where aliases lead

An alias is seen from a folder of the project, and what it leads to lies in that folder, if what
follows the alias mark is a relative path without double dots. The endings that may be left out are
put behind that path before it is looked at, so there must be no double dots in them either.

What follows the mark may begin with a slash. Then it is an absolute path, and like every absolute
path it is not seen from any folder: the alias leads out of the project.
-/

namespace SourceLoom.Reference

open Files

variable {conventions : Conventions} {cwd base place path root : Path} {file rest : Text}
  {names more : List Name}

/-- A place lies strictly below a directory: some names lead from the directory to it. -/
def IsBelow (base path : Path) : Prop := ∃ names, names ≠ [] ∧ Path.below? base path = some names

/-- Names that do not lead up lead from a directory to a place strictly below it. -/
theorem isBelow_absolute (hbase : base.IsNormal) (hmore : more ≠ []) (hdots : Path.dotDot ∉ more) :
    IsBelow base (Path.absolute { base with names := base.names ++ more } cwd) := by
  refine ⟨more, hmore, ?_⟩
  rw [Path.absolute_below base cwd hdots, hbase.absolute_eq]
  exact Path.below?_eq_some_iff.mpr rfl

/-- What lies strictly below a directory lies strictly below every directory above that. -/
theorem IsBelow.of_names_append {start : Start} (h : IsBelow ⟨start, names ++ more⟩ path) :
    IsBelow ⟨start, names⟩ path := by
  obtain ⟨last, hlast, hbelow⟩ := h
  refine ⟨more ++ last, fun hnil => hlast (List.append_eq_nil_iff.mp hnil).2, ?_⟩
  rw [Path.below?_eq_some_iff.mp hbelow]
  exact Path.below?_eq_some_iff.mpr (congrArg (Path.mk start) (List.append_assoc ..))

/-- Every candidate for a place lies strictly below the directory of the place, if no ending leads
up. -/
theorem isBelow_of_mem_candidates {start : Start} {last : Name}
    (hplace : (⟨start, names ++ [last]⟩ : Path).IsNormal) (hvalid : conventions.IsValid)
    (hendings : ∀ ending ∈ conventions.extensions, Path.dotDot ∉ Text.splitOn '/' ending)
    (h : path ∈ candidates conventions cwd ⟨start, names ++ [last]⟩) :
    IsBelow ⟨start, names⟩ path := by
  have hmem : last ∈ names ++ [last] := List.mem_append_right _ List.mem_cons_self
  have hbase : (⟨start, names⟩ : Path).IsNormal :=
    ⟨hplace.isAbsolute, fun name hname => hplace.isClean name (List.mem_append_left _ hname),
      fun hup => hplace.noDotDot (List.mem_append_left _ hup)⟩
  simp only [candidates, List.cons_append, List.mem_cons, List.mem_append, List.mem_map] at h
  rcases h with rfl | ⟨ending, hending, rfl⟩ | ⟨ending, hending, rfl⟩
  · refine isBelow_absolute hbase (List.cons_ne_nil last []) ?_
    exact fun hup => hplace.noDotDot (List.mem_append_right _ hup)
  · have hdot := hvalid.head?_extensions ending hending
    obtain ⟨hne, hup⟩ :=
      Path.names_ofText_append_ending (hplace.isClean last hmem) hdot (hendings ending hending)
    have hslash : ending.head? ≠ some '/' := by
      rw [hdot]
      decide
    rw [Path.ofText_toText_append hplace.isAbsolute hplace.isClean rfl hslash]
    exact isBelow_absolute hbase hne hup
  · have hindex : "index".toList ≠ [] ∧ "index".toList ≠ Path.dot ∧ '/' ∉ "index".toList := by
      decide
    obtain ⟨hne, hup⟩ := Path.names_ofText_append_ending hindex
      (hvalid.head?_extensions ending hending) (hendings ending hending)
    have hchild : Path.child ⟨start, names ++ [last]⟩ ("index".toList ++ ending) =
        ⟨start, (names ++ [last]) ++ (Path.ofText ("index".toList ++ ending)).names⟩ := rfl
    rw [hchild]
    exact (isBelow_absolute hplace hne hup).of_names_append

/-- With a root, what follows the alias mark is seen from the alias folder of the root. -/
theorem place?_alias (conventions : Conventions) (cwd file root : Path) (rest : Text) :
    place? conventions cwd file (some root) (conventions.aliasMark ++ rest) =
      some ((root.child conventions.aliasFolder).child rest).collapse := by
  unfold place?
  rw [Text.dropLeading?_eq_some_iff.mpr rfl]
  rfl

/-- What follows the alias mark has a name in it, if it is more than slashes and single dots. -/
theorem names_ofText_ne_nil (hrest : ∃ c ∈ rest, c ≠ '/')
    (hdot : Path.dot ∉ Text.splitOn '/' rest) : (Path.ofText rest).names ≠ [] := by
  obtain ⟨c, hc, hslash⟩ := hrest
  obtain ⟨piece, hpiece, hmem⟩ := Text.exists_mem_splitOn hc hslash
  have hname : piece ≠ [] ∧ piece ≠ Path.dot :=
    ⟨List.ne_nil_of_mem hmem, fun hsingle => hdot (hsingle ▸ hpiece)⟩
  exact List.ne_nil_of_mem (Path.mem_stepsOf.mpr ⟨hpiece, hname⟩)

/-- A relative path without double dots leads from a directory to a place with its names behind
those of the directory. -/
theorem absolute_child (base cwd : Path) (hrest : (Path.ofText rest).isAbsolute = false)
    (hdots : Path.dotDot ∉ Text.splitOn '/' rest) :
    (base.child rest).absolute cwd = { base.absolute cwd with
      names := (base.absolute cwd).names ++ (Path.ofText rest).names } := by
  have hchild : base.child rest =
      { base with names := base.names ++ (Path.ofText rest).names } := by
    rw [Path.child, Path.append, hrest]
    rfl
  rw [hchild]
  exact Path.absolute_below base cwd fun hup => hdots (Path.mem_stepsOf.mp hup).1

/-- What a text names inside an absolute path is absolute. -/
theorem isAbsolute_child (hroot : root.isAbsolute = true) (text : Text) :
    (root.child text).isAbsolute = true := by
  unfold Path.child Path.append
  split
  · assumption
  · exact hroot

/-- The absolute form of an absolute path is found by cancelling its double dots. -/
theorem collapse_eq_absolute (h : path.isAbsolute = true) (cwd : Path) :
    path.collapse = path.absolute cwd := by
  rw [Path.absolute, Path.append_of_isAbsolute h]

/-- With settings that are accepted, an alias that is followed by a relative path leads strictly
below the alias folder of the root, if the path has a name in it, and no single or double dot is
among its pieces, and no double dot is among those of an ending that may be left out. An alias that
is followed by an absolute path is resolved at that path instead. -/
theorem resolve_alias {σ : Type} {entries : List (Datum × Datum)}
    (hentries : Settings.ofEntries entries = .ok conventions) (hcwd : cwd.IsNormal)
    (isFile : Path → ExceptT Fault (StateM σ) Bool) (state : σ) (file : Text) {root rest : Text}
    (hroot : (Path.ofText root).isAbsolute = true) (hrest : ∃ c ∈ rest, c ≠ '/')
    (hdot : Path.dot ∉ Text.splitOn '/' rest) (hdots : Path.dotDot ∉ Text.splitOn '/' rest) :
    ((Path.ofText rest).isAbsolute = false →
      (∀ ending ∈ conventions.extensions, Path.dotDot ∉ Text.splitOn '/' ending) →
      ∀ path, ((resolve conventions isFile cwd (conventions.aliasMark ++ rest) file
          (some (.ofText root))).run.run state).1 = .ok (some path) →
        IsBelow (((Path.ofText root).child conventions.aliasFolder).absolute cwd) path) ∧
    ((Path.ofText rest).isAbsolute = true →
      place? conventions cwd (.ofText file) (some (.ofText root)) (conventions.aliasMark ++ rest) =
        some (Path.ofText rest).collapse) := by
  constructor
  · intro hrelative hendings path hfound
    obtain ⟨place, hplace, hmem⟩ := Traversal.exists_mem_candidates hfound
    have habsolute := isAbsolute_child (isAbsolute_child hroot conventions.aliasFolder) rest
    have hnormal := (((Path.ofText_isClean root).child conventions.aliasFolder).child rest).absolute
      hcwd
    rw [place?_alias, collapse_eq_absolute habsolute cwd, Option.some.injEq] at hplace
    subst hplace
    rw [absolute_child _ cwd hrelative hdots] at hmem hnormal
    -- the last name of what follows the mark stands for the place, and the others lead to it
    have hsome := names_ofText_ne_nil hrest hdot
    obtain ⟨outer, last, hnames⟩ :=
      (List.eq_nil_or_concat' (Path.ofText rest).names).resolve_left hsome
    rw [hnames, ← List.append_assoc] at hmem hnormal
    exact (isBelow_of_mem_candidates hnormal (Settings.ofEntries_isValid hentries) hendings
      hmem).of_names_append
  · intro habsolute
    rw [place?_alias, Path.child, Path.append_of_isAbsolute habsolute]

/-- A tree with a file in a folder of its working directory, and with a file outside. -/
def foldered : Tree where
  root := .directory .ofDirectory
    [("w".toList, .directory .ofDirectory
        [("lib".toList, .directory .ofDirectory
          [("a".toList, .directory .ofDirectory [("b.vue".toList, .file .ofFile [])])])]),
      ("etc".toList, .directory .ofDirectory [("x.js".toList, .file .ofFile [])])]
  cwd := ⟨.root, ["w".toList]⟩

/-- The working directory of this tree is given in normal form. -/
theorem foldered_cwd_isNormal : foldered.cwd.IsNormal := by decide

/-- Settings for another alias mark, another folder and another ending. -/
def tildeEntries : List (Datum × Datum) :=
  [(.text Settings.aliasMark, .text "~".toList), (.text Settings.aliasFolder, .text "lib".toList),
    (.text Settings.extensions, .list [.text "vue".toList])]

/-- The conventions with these settings. -/
def tilde : Conventions :=
  { aliasMark := "~".toList, aliasFolder := "lib".toList, extensions := [".vue".toList] }

/-- With these settings the alias of the file in the folder leads to it, also with more slashes than
needed, and it lies in the folder. -/
theorem resolve_alias_foldered :
    ((resolve tilde Tree.system.isFile foldered.cwd "~a//b/".toList "c.vue".toList
      (some (.ofText "/w".toList))).run.run foldered).1 =
        .ok (some (.ofText "/w/lib/a/b.vue".toList)) ∧
      IsBelow (.ofText "/w/lib".toList) (.ofText "/w/lib/a/b.vue".toList) := by
  have hfound : ((resolve tilde Tree.system.isFile foldered.cwd "~a//b/".toList "c.vue".toList
      (some (.ofText "/w".toList))).run.run foldered).1 =
        .ok (some (.ofText "/w/lib/a/b.vue".toList)) := by decide +kernel
  have hentries : Settings.ofEntries tildeEntries = .ok tilde := by decide +kernel
  have hroot : (Path.ofText "/w".toList).isAbsolute = true := by decide
  have hrest : ∃ c ∈ "a//b/".toList, c ≠ '/' := ⟨'a', by decide, by decide⟩
  have hdot : Path.dot ∉ Text.splitOn '/' "a//b/".toList := by decide
  have hdots : Path.dotDot ∉ Text.splitOn '/' "a//b/".toList := by decide
  have hbelow := (resolve_alias hentries foldered_cwd_isNormal Tree.system.isFile foldered
    "c.vue".toList hroot hrest hdot hdots).1 (by decide) (by decide) _ hfound
  exact ⟨hfound, hbelow⟩

/-- An alias may lead out of its folder, to an absolute path. -/
theorem exists_alias_outside : ¬ ∀ (tree : Tree) (entries : List (Datum × Datum))
    (conventions : Conventions) (file root rest : Text) (path : Path), tree.cwd.IsNormal →
      Settings.ofEntries entries = .ok conventions →
      (Path.ofText conventions.aliasFolder).isAbsolute = false →
      Path.dotDot ∉ Text.splitOn '/' conventions.aliasFolder →
      (Path.ofText root).isAbsolute = true → (∃ c ∈ rest, c ≠ '/') →
      Path.dot ∉ Text.splitOn '/' rest → Path.dotDot ∉ Text.splitOn '/' rest →
      ((resolve conventions Tree.system.isFile tree.cwd (conventions.aliasMark ++ rest) file
        (some (.ofText root))).run.run tree).1 = .ok (some path) →
        IsBelow (((Path.ofText root).child conventions.aliasFolder).absolute tree.cwd) path := by
  intro hall
  have hrest : ∃ c ∈ "/etc/x".toList, c ≠ '/' := ⟨'x', by decide, by decide⟩
  obtain ⟨names, -, hbelow⟩ := hall foldered [] {} "/w/a.js".toList "/w".toList "/etc/x".toList
    (.ofText "/etc/x.js".toList) foldered_cwd_isNormal rfl (by decide) (by decide) (by decide)
    hrest (by decide) (by decide) (by decide +kernel)
  have hnone : Path.below? (((Path.ofText "/w".toList).child "src".toList).absolute foldered.cwd)
      (.ofText "/etc/x.js".toList) = none := by decide +kernel
  cases hnone.symm.trans hbelow

end SourceLoom.Reference
