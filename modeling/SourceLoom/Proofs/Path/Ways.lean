import SourceLoom.Proofs.Path.Shown

/-!
# Directories above a path

A directory is on the way to a path if both start in the same place and the names of the directory
begin those of the path; it is above the path if it is not the path itself. From a directory above
it, a path is shown by the names that lead there, and every directory above a path is on the way to
the directory that holds it.
-/

namespace SourceLoom.Path

variable {base directory path : Path}

/-- The path to which names lead from a directory. -/
def along (directory : Path) (names : List Name) : Path :=
  { directory with names := directory.names ++ names }

/-- Names lead on from the entry of the first of them. -/
theorem along_cons (directory : Path) (name : Name) (names : List Name) :
    directory.along (name :: names) = (directory.entry name).along names := by
  simp only [along, entry, List.append_assoc, List.singleton_append]

/-- Names lead on from where others have led. -/
theorem along_append (directory : Path) (names more : List Name) :
    directory.along (names ++ more) = (directory.along names).along more := by
  simp only [along, List.append_assoc]

/-- Different names lead to different paths. -/
theorem along_inj {names more : List Name} (h : directory.along names = directory.along more) :
    names = more :=
  List.append_cancel_left (congrArg Path.names h)

/-- A directory is on the way to a path, or is the path itself. -/
def IsOnWayTo (directory path : Path) : Prop :=
  directory.start = path.start ∧ directory.names <+: path.names

/-- A directory is above a path. -/
def IsAbove (directory path : Path) : Prop := directory.IsOnWayTo path ∧ directory ≠ path

instance (directory path : Path) : Decidable (directory.IsOnWayTo path) :=
  inferInstanceAs (Decidable (_ ∧ _))

instance (directory path : Path) : Decidable (directory.IsAbove path) :=
  inferInstanceAs (Decidable (_ ∧ _))

/-- Two paths that are each on the way to the other are the same. -/
theorem IsOnWayTo.antisymm (h : directory.IsOnWayTo path) (h' : path.IsOnWayTo directory) :
    directory = path := by
  obtain ⟨start, names⟩ := directory
  obtain ⟨-, hnames⟩ := h'
  obtain ⟨rfl, hfirst⟩ := h
  have hlength := Nat.le_antisymm hfirst.length_le hnames.length_le
  exact congrArg (Path.mk path.start) (hfirst.eq_of_length hlength)

/-- A directory on the way to a normal path is normal. -/
theorem IsOnWayTo.isNormal (h : directory.IsOnWayTo path) (hpath : path.IsNormal) :
    directory.IsNormal := by
  obtain ⟨hstart, hnames⟩ := h
  refine ⟨?_, fun name hname => hpath.isClean name (hnames.subset hname), fun hup =>
    hpath.noDotDot (hnames.subset hup)⟩
  have habsolute := hpath.isAbsolute
  rwa [isAbsolute, ← hstart] at habsolute

/-- A directory is above a path exactly if some names lead from it to the path. -/
theorem isAbove_iff : directory.IsAbove path ↔
    ∃ names, names ≠ [] ∧ path = directory.along names := by
  obtain ⟨start, above⟩ := directory
  obtain ⟨pathStart, pathNames⟩ := path
  constructor
  · rintro ⟨⟨hstart, names, hnames⟩, hne⟩
    dsimp only at hstart hnames
    subst hstart hnames
    refine ⟨names, fun hnil => hne ?_, rfl⟩
    rw [hnil, List.append_nil]
  · rintro ⟨names, hnames, hpath⟩
    cases hpath
    refine ⟨⟨rfl, List.prefix_append _ _⟩, fun hsame => hnames ?_⟩
    exact List.self_eq_append_right.mp (congrArg Path.names hsame)

/-- Every directory above a path is on the way to the directory that holds the path. -/
theorem IsAbove.isOnWayTo_parent (h : directory.IsAbove path) :
    directory.IsOnWayTo path.parent := by
  obtain ⟨names, hnames, rfl⟩ := isAbove_iff.mp h
  refine ⟨rfl, ?_⟩
  rw [parent, along]
  dsimp only
  rw [List.dropLast_append_of_ne_nil hnames]
  exact List.prefix_append _ _

/-- The directory that holds a path is above it, if the path has a name. -/
theorem isAbove_parent (h : path.names ≠ []) : path.parent.IsAbove path := by
  refine ⟨⟨rfl, List.dropLast_prefix _⟩, fun hsame => ?_⟩
  have hlength := congrArg (fun same : Path => same.names.length) hsame
  have hpositive := List.length_pos_of_ne_nil h
  simp only [parent, List.length_dropLast] at hlength
  omega

/-- A normal path is shown from a directory by the names that lead to it from the absolute form of
the directory. -/
theorem shownFrom_eq (hpath : path.IsNormal) {cwd : Path} {names : List Name}
    (h : path = (base.absolute cwd).along names) :
    path.shownFrom cwd base = ⟨.here, names⟩ := by
  unfold shownFrom
  rw [hpath.absolute_eq, below?_eq_some_iff.mpr h]

end SourceLoom.Path
