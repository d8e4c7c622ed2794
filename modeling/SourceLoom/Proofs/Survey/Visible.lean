import Mathlib.Data.List.TakeWhile
import SourceLoom.Proofs.Path.Ways
import SourceLoom.Proofs.Scan.Descent
import SourceLoom.Survey

/-!
# What an outline shows

An outline of a directory shows the entries to which names lead that are not hidden, through
directories and links to directories, as far as its levels go. A directory further down than those
that are always shown must have something to show for it: somewhere below it, still within the
levels, an entry that is no directory. What is shown in an entry of a directory is shown with one
level less, and of the levels that are always shown there is one less as well.
-/

namespace SourceLoom.Survey

open Files

/-- A directory lists a name that is not hidden. -/
def IsListed (tree : Tree) (directory : Path) (name : Name) : Prop :=
  ∃ names, tree.list directory = .ok names ∧ name ∈ names ∧ isHidden hiddenNames name = false

/-- Names lead from a directory to an entry, through directories, and none of them is hidden. -/
inductive Visible (tree : Tree) : Path → List Name → Prop
  /-- An entry of the directory itself. -/
  | here {directory : Path} {name : Name} :
      IsListed tree directory name → Visible tree directory [name]
  /-- An entry further down, in one of its directories. -/
  | inside {directory : Path} {name : Name} {names : List Name} :
      IsListed tree directory name → tree.isDirectory (directory.entry name) = .ok true →
        Visible tree (directory.entry name) names → Visible tree directory (name :: names)

/-- At most so many levels below a directory is an entry that is no directory. -/
def HasPlain (tree : Tree) (levels : Nat) (directory : Path) : Prop :=
  ∃ names, names.length ≤ levels ∧ Visible tree directory names ∧
    tree.isDirectory (directory.along names) = .ok false

/-- Names lead to an entry that an outline shows, so many levels deep; directories on the `kept`
first levels are always shown. -/
structure IsShown (tree : Tree) (levels : Nat) (kept : Int) (directory : Path) (names : List Name)
    (isDirectory : Bool) : Prop where
  /-- The entry is not too deep. -/
  length_le : names.length ≤ levels
  /-- It is visible. -/
  visible : Visible tree directory names
  /-- It is a directory or not. -/
  kind : tree.isDirectory (directory.along names) = .ok isDirectory
  /-- A directory is on the first levels, or has something to show for it. -/
  worthwhile : isDirectory = true → (names.length : Int) ≤ kept ∨
    HasPlain tree (levels - names.length) (directory.along names)

variable {tree : Tree} {levels : Nat} {kept : Int} {directory : Path} {name : Name}
  {names more : List Name} {isDirectory : Bool}

/-- The directory itself is no visible entry. -/
theorem Visible.ne_nil (h : Visible tree directory names) : names ≠ [] := by
  cases h with
  | here => exact List.cons_ne_nil _ _
  | inside => exact List.cons_ne_nil _ _

/-- The first of the names is listed. -/
theorem Visible.isListed (h : Visible tree directory (name :: names)) :
    IsListed tree directory name := by
  cases h with
  | here hlisted => exact hlisted
  | inside hlisted => exact hlisted

/-- From a visible directory visible entries lead to visible entries. -/
theorem Visible.append (h : Visible tree directory names)
    (hdirectory : tree.isDirectory (directory.along names) = .ok true)
    (hmore : Visible tree (directory.along names) more) :
    Visible tree directory (names ++ more) := by
  induction h with
  | here hlisted => exact .inside hlisted hdirectory hmore
  | inside hlisted hfirst _ ih =>
    rw [Path.along_cons] at hdirectory hmore
    exact .inside hlisted hfirst (ih hdirectory hmore)

/-- An entry of the directory itself is shown exactly if it is listed, and if it is a directory, it
has to be worthwhile. -/
theorem isShown_singleton_iff : IsShown tree (levels + 1) kept directory [name] isDirectory ↔
    IsListed tree directory name ∧ tree.isDirectory (directory.entry name) = .ok isDirectory ∧
      (isDirectory = true → 1 ≤ kept ∨ HasPlain tree levels (directory.entry name)) :=
  ⟨fun h => ⟨h.visible.isListed, h.kind, h.worthwhile⟩, fun ⟨hlisted, hkind, hworthwhile⟩ =>
    ⟨Nat.succ_le_succ (Nat.zero_le levels), .here hlisted, hkind, hworthwhile⟩⟩

/-- An entry further down is shown exactly if it is shown in the directory that the first name
leads to. -/
theorem isShown_cons_iff (hnames : names ≠ []) :
    IsShown tree (levels + 1) kept directory (name :: names) isDirectory ↔
      IsListed tree directory name ∧ tree.isDirectory (directory.entry name) = .ok true ∧
        IsShown tree levels (kept - 1) (directory.entry name) names isDirectory := by
  have hdepth : levels + 1 - (name :: names).length = levels - names.length :=
    Nat.add_sub_add_right levels 1 names.length
  have hkept : (((name :: names).length : Nat) : Int) ≤ kept ↔
      (names.length : Int) ≤ kept - 1 := by
    rw [List.length_cons]
    omega
  constructor
  · rintro ⟨hlength, hvisible, hkind, hworthwhile⟩
    rw [Path.along_cons] at hkind hworthwhile
    rw [hkept, hdepth] at hworthwhile
    cases hvisible with
    | here => exact absurd rfl hnames
    | inside hlisted hfirst hvisible =>
      exact ⟨hlisted, hfirst, Nat.le_of_succ_le_succ hlength, hvisible, hkind, hworthwhile⟩
  · rintro ⟨hlisted, hfirst, hlength, hvisible, hkind, hworthwhile⟩
    refine ⟨Nat.succ_le_succ hlength, .inside hlisted hfirst hvisible, ?_, ?_⟩
    · rwa [Path.along_cons]
    · rwa [Path.along_cons, hkept, hdepth]

/-- Below the levels that are always shown, anything is shown exactly if some entry is no
directory. -/
theorem hasPlain_iff_exists_isShown (hkept : kept ≤ 0) : HasPlain tree levels directory ↔
    ∃ names isDirectory, IsShown tree levels kept directory names isDirectory := by
  constructor
  · rintro ⟨names, hlength, hvisible, hkind⟩
    exact ⟨names, false, hlength, hvisible, hkind, nofun⟩
  · rintro ⟨names, isDirectory, hshown⟩
    cases isDirectory with
    | false => exact ⟨names, hshown.length_le, hshown.visible, hshown.kind⟩
    | true =>
      have hpos := List.length_pos_of_ne_nil hshown.visible.ne_nil
      have hlength := hshown.length_le
      have hdeep : ¬(names.length : Int) ≤ kept := by omega
      obtain ⟨more, hmore, hvisible, hkind⟩ := (hshown.worthwhile rfl).resolve_left hdeep
      refine ⟨names ++ more, ?_, hshown.visible.append hshown.kind hvisible, ?_⟩
      · rw [List.length_append]
        omega
      · rwa [Path.along_append]

section Keys

/-- The key of an entry: its name, with a slash after that of a directory. -/
def keyOf (name : Name) (isDirectory : Bool) : Text := if isDirectory then name ++ ['/'] else name

/-- The name in a key. -/
def nameOf (key : Text) : Name := key.takeWhile (· ≠ '/')

/-- The name in one key comes before the name in another. -/
def NameBefore (key other : Text) : Prop := nameOf key < nameOf other

/-- The keys that lead to an entry along names; all but the last are those of directories. -/
def keysOf : (names : List Name) → (isDirectory : Bool) → List Text
  | [], _ => []
  | [name], isDirectory => [keyOf name isDirectory]
  | name :: next :: names, isDirectory => keyOf name true :: keysOf (next :: names) isDirectory

/-- The first key on the way to an entry further down is that of a directory. -/
theorem keysOf_cons (hnames : names ≠ []) :
    keysOf (name :: names) isDirectory = keyOf name true :: keysOf names isDirectory := by
  cases names with
  | nil => exact absurd rfl hnames
  | cons next names => rfl

/-- The name in the key of an entry is its name. -/
theorem nameOf_keyOf (hname : '/' ∉ name) (isDirectory : Bool) :
    nameOf (keyOf name isDirectory) = name := by
  have hall : ∀ c ∈ name, decide (c ≠ '/') = true := fun c hc =>
    decide_eq_true (ne_of_mem_of_not_mem hc hname)
  cases isDirectory with
  | false => exact List.takeWhile_eq_self_iff.mpr hall
  | true =>
    change (name ++ ['/']).takeWhile (· ≠ '/') = name
    rw [List.takeWhile_append_of_pos hall]
    simp

/-- The names in the keys on the way to an entry are those that lead there. -/
theorem map_nameOf_keysOf (hnames : ∀ name ∈ names, '/' ∉ name) (isDirectory : Bool) :
    (keysOf names isDirectory).map nameOf = names := by
  induction names with
  | nil => rfl
  | cons name names ih =>
    obtain ⟨hname, hnames⟩ := List.forall_mem_cons.mp hnames
    by_cases hnil : names = []
    · subst hnil
      exact congrArg ([·]) (nameOf_keyOf hname isDirectory)
    · rw [keysOf_cons hnil, List.map_cons, nameOf_keyOf hname, ih hnames]

/-- The keys on the way to an entry tell whether it is a directory. -/
theorem keysOf_kind_inj {other : Bool} (hnames : names ≠ [])
    (h : keysOf names isDirectory = keysOf names other) : isDirectory = other := by
  induction names with
  | nil => exact absurd rfl hnames
  | cons name names ih =>
    by_cases hnil : names = []
    · subst hnil
      have hkeys : keyOf name isDirectory = keyOf name other := List.head_eq_of_cons_eq h
      cases isDirectory <;> cases other <;> simp [keyOf] at hkeys ⊢
    · rw [keysOf_cons hnil, keysOf_cons hnil] at h
      exact ih hnil (List.tail_eq_of_cons_eq h)

end Keys

section Rows

variable {row : List Text}

/-- Keys lead to an entry that an outline shows. -/
def Shows (tree : Tree) (levels : Nat) (kept : Int) (directory : Path) (row : List Text) : Prop :=
  ∃ names isDirectory, row = keysOf names isDirectory ∧
    IsShown tree levels kept directory names isDirectory

/-- Keys lead to an entry that an outline shows, along names of which the first is given. -/
def ShowsUnder (tree : Tree) (levels : Nat) (kept : Int) (directory : Path) (name : Name)
    (row : List Text) : Prop :=
  ∃ names isDirectory, row = keysOf (name :: names) isDirectory ∧
    IsShown tree levels kept directory (name :: names) isDirectory

/-- Only what is listed leads to entries that are shown. -/
theorem ShowsUnder.isListed (h : ShowsUnder tree levels kept directory name row) :
    IsListed tree directory name := by
  obtain ⟨names, isDirectory, -, hshown⟩ := h
  exact hshown.visible.isListed

/-- Keys that lead to an entry that is shown lead there along some first name. -/
theorem shows_iff_exists_showsUnder : Shows tree levels kept directory row ↔
    ∃ name, ShowsUnder tree levels kept directory name row := by
  constructor
  · rintro ⟨names, isDirectory, rfl, hshown⟩
    obtain ⟨name, names, rfl⟩ := List.exists_cons_of_ne_nil hshown.visible.ne_nil
    exact ⟨name, names, isDirectory, rfl, hshown⟩
  · rintro ⟨name, names, isDirectory, rfl, hshown⟩
    exact ⟨name :: names, isDirectory, rfl, hshown⟩

/-- No entry is shown on no levels. -/
theorem not_shows_zero : ¬Shows tree 0 kept directory row := by
  rintro ⟨names, isDirectory, -, hshown⟩
  exact hshown.visible.ne_nil (List.length_eq_zero_iff.mp (Nat.le_zero.mp hshown.length_le))

/-- Along the name of an entry that is no directory, only that entry is shown. -/
theorem showsUnder_iff_of_plain (hlisted : IsListed tree directory name)
    (hkind : tree.isDirectory (directory.entry name) = .ok false) :
    ShowsUnder tree (levels + 1) kept directory name row ↔ row = [name] := by
  constructor
  · rintro ⟨names, isDirectory, rfl, hshown⟩
    by_cases hnil : names = []
    · subst hnil
      cases Except.ok.inj (hkind.symm.trans hshown.kind)
      rfl
    · cases hkind.symm.trans ((isShown_cons_iff hnil).mp hshown).2.1
  · rintro rfl
    exact ⟨[], false, rfl, isShown_singleton_iff.mpr ⟨hlisted, hkind, nofun⟩⟩

/-- Along the name of a directory, the directory is shown if it is worthwhile, and what is shown in
it with one level less. -/
theorem showsUnder_iff_of_directory (hlisted : IsListed tree directory name)
    (hkind : tree.isDirectory (directory.entry name) = .ok true) :
    ShowsUnder tree (levels + 1) kept directory name row ↔
      row = [keyOf name true] ∧ (1 ≤ kept ∨ HasPlain tree levels (directory.entry name)) ∨
        ∃ rest, Shows tree levels (kept - 1) (directory.entry name) rest ∧
          row = keyOf name true :: rest := by
  constructor
  · rintro ⟨names, isDirectory, rfl, hshown⟩
    by_cases hnil : names = []
    · subst hnil
      obtain ⟨-, hsame, hworthwhile⟩ := isShown_singleton_iff.mp hshown
      cases Except.ok.inj (hkind.symm.trans hsame)
      exact Or.inl ⟨rfl, hworthwhile rfl⟩
    · obtain ⟨-, -, hinner⟩ := (isShown_cons_iff hnil).mp hshown
      exact Or.inr ⟨_, ⟨names, isDirectory, rfl, hinner⟩, keysOf_cons hnil⟩
  · rintro (⟨rfl, hworthwhile⟩ | ⟨_, ⟨names, isDirectory, rfl, hinner⟩, rfl⟩)
    · exact ⟨[], true, rfl, isShown_singleton_iff.mpr ⟨hlisted, hkind, fun _ => hworthwhile⟩⟩
    · have hnil := hinner.visible.ne_nil
      exact ⟨names, isDirectory, (keysOf_cons hnil).symm,
        (isShown_cons_iff hnil).mpr ⟨hlisted, hkind, hinner⟩⟩

/-- A directory is worthwhile exactly if it is on the first levels or anything in it is shown. -/
theorem worthwhile_iff : 1 ≤ kept ∨ HasPlain tree levels directory ↔
    1 ≤ kept ∨ ∃ row, Shows tree levels (kept - 1) directory row := by
  by_cases hfirst : 1 ≤ kept
  · exact iff_of_true (Or.inl hfirst) (Or.inl hfirst)
  · have hdeep : kept - 1 ≤ 0 := by omega
    rw [or_iff_right hfirst, or_iff_right hfirst, hasPlain_iff_exists_isShown hdeep]
    constructor
    · rintro ⟨names, isDirectory, hshown⟩
      exact ⟨_, names, isDirectory, rfl, hshown⟩
    · rintro ⟨_, names, isDirectory, -, hshown⟩
      exact ⟨names, isDirectory, hshown⟩

end Rows

end SourceLoom.Survey
