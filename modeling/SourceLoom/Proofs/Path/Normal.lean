import SourceLoom.Path
import Mathlib.Data.List.Basic

/-!
# Normal paths

Reading a path leaves no empty name, no single dot and no slash in it, and cancelling its double
dots keeps it so. The absolute form of such a path, seen from a directory in normal form, is
normal: it starts at the root, and no double dot is left. Normal paths are the identities of
files in this library. A normal path can be read again from its text.
-/

namespace SourceLoom.Path

/-- Every name stands for a step: none is empty or a single dot, and none holds a slash. -/
def IsClean (path : Path) : Prop := ∀ name ∈ path.names, name ≠ [] ∧ name ≠ dot ∧ '/' ∉ name

/-- A clean path from the root without double dots. -/
structure IsNormal (path : Path) : Prop where
  /-- It does not depend on the working directory. -/
  isAbsolute : path.isAbsolute = true
  /-- Every name stands for a step. -/
  isClean : path.IsClean
  /-- No step leads up. -/
  noDotDot : dotDot ∉ path.names

instance (path : Path) : Decidable path.IsClean :=
  inferInstanceAs (Decidable (∀ name ∈ path.names, name ≠ [] ∧ name ≠ dot ∧ '/' ∉ name))

instance (path : Path) : Decidable path.IsNormal :=
  decidable_of_iff (path.isAbsolute = true ∧ path.IsClean ∧ dotDot ∉ path.names)
    ⟨fun h => ⟨h.1, h.2.1, h.2.2⟩, fun h => ⟨h.isAbsolute, h.isClean, h.noDotDot⟩⟩

/-- No piece of a split text holds the separator. -/
theorem not_mem_of_mem_splitOn {separator : Char} {text piece : Text}
    (h : piece ∈ Text.splitOn separator text) : separator ∉ piece := by
  induction text generalizing piece with
  | nil =>
    rw [Text.splitOn, List.mem_singleton] at h
    rw [h]
    exact List.not_mem_nil
  | cons c rest ih =>
    rw [Text.splitOn] at h
    split at h
    · rcases List.mem_cons.mp h with rfl | h
      · exact List.not_mem_nil
      · exact ih h
    · rename_i hc
      cases hs : Text.splitOn separator rest with
      | nil => exact absurd hs (Text.splitOn_ne_nil separator rest)
      | cons first others =>
        rw [hs, List.modifyHead_cons] at h
        rcases List.mem_cons.mp h with rfl | h
        · have hf := ih (hs ▸ List.mem_cons_self)
          rw [List.mem_cons, not_or]
          exact ⟨fun he => hc he.symm, hf⟩
        · exact ih (hs ▸ List.mem_cons_of_mem _ h)

/-- A path that was read is clean. -/
theorem ofText_isClean (text : Text) : (ofText text).IsClean := by
  intro name hname
  obtain ⟨hpiece, hkept⟩ := List.mem_filter.mp hname
  simp only [Bool.decide_and, Bool.and_eq_true, decide_eq_true_eq] at hkept
  exact ⟨hkept.1, hkept.2, not_mem_of_mem_splitOn hpiece⟩

/-- An absolute path stays as it is wherever it is seen from. -/
theorem append_of_isAbsolute {path : Path} (h : path.isAbsolute = true) (base : Path) :
    base.append path = path := if_pos h

/-- A clean path seen from a clean directory is clean. -/
theorem IsClean.append {base path : Path} (hb : base.IsClean) (hp : path.IsClean) :
    (base.append path).IsClean := by
  unfold Path.append
  split
  · exact hp
  · intro name hname
    rcases List.mem_append.mp hname with h | h
    · exact hb name h
    · exact hp name h

/-- What a text names inside a clean directory is clean. -/
theorem IsClean.child {base : Path} (hb : base.IsClean) (text : Text) :
    (base.child text).IsClean :=
  hb.append (ofText_isClean text)

/-- The directory of a clean path is clean. -/
theorem IsClean.parent {path : Path} (hp : path.IsClean) : path.parent.IsClean :=
  fun name hname => hp name (List.dropLast_subset _ hname)

/-- Cancelling invents no name but a double dot. -/
theorem mem_collapseNames {absolute : Bool} {above names : List Name} {name : Name}
    (h : name ∈ collapseNames absolute above names) :
    name ∈ above ∨ name ∈ names ∨ name = dotDot := by
  induction names generalizing above with
  | nil => exact Or.inl (List.mem_reverse.mp h)
  | cons first names ih =>
    unfold collapseNames at h
    split at h
    · rcases ih h with h | h | h
      · rcases List.mem_cons.mp h with rfl | h
        · exact Or.inr (Or.inl List.mem_cons_self)
        · exact Or.inl h
      · exact Or.inr (Or.inl (List.mem_cons_of_mem _ h))
      · exact Or.inr (Or.inr h)
    · cases above with
      | nil =>
        rcases ih h with h | h | h
        · cases absolute with
          | true => exact absurd h List.not_mem_nil
          | false => exact Or.inr (Or.inr (List.mem_singleton.mp h))
        · exact Or.inr (Or.inl (List.mem_cons_of_mem _ h))
        · exact Or.inr (Or.inr h)
      | cons last above =>
        dsimp only at h
        split at h
        · rcases ih h with h | h | h
          · rcases List.mem_cons.mp h with h | h
            · exact Or.inr (Or.inr h)
            · exact Or.inl h
          · exact Or.inr (Or.inl (List.mem_cons_of_mem _ h))
          · exact Or.inr (Or.inr h)
        · rcases ih h with h | h | h
          · exact Or.inl (List.mem_cons_of_mem _ h)
          · exact Or.inr (Or.inl (List.mem_cons_of_mem _ h))
          · exact Or.inr (Or.inr h)

/-- Cancelling from the root leaves no double dot. -/
theorem dotDot_not_mem_collapseNames {above : List Name} (ha : dotDot ∉ above)
    (names : List Name) : dotDot ∉ collapseNames true above names := by
  induction names generalizing above with
  | nil => simpa only [collapseNames, List.mem_reverse] using ha
  | cons first names ih =>
    unfold collapseNames
    split
    · rename_i hf
      apply ih
      rw [List.mem_cons, not_or]
      exact ⟨fun he => hf he.symm, ha⟩
    · cases above with
      | nil => exact ih ha
      | cons last above =>
        rw [List.mem_cons, not_or] at ha
        dsimp only
        rw [if_neg fun he => ha.1 he.symm]
        exact ih ha.2

/-- Cancelling the double dots of a clean path keeps it clean. -/
theorem IsClean.collapse {path : Path} (hp : path.IsClean) : path.collapse.IsClean := by
  intro name hname
  rcases mem_collapseNames hname with h | h | h
  · exact absurd h List.not_mem_nil
  · exact hp name h
  · rw [h]
    decide

/-- The absolute form of a clean path is normal. -/
theorem IsClean.absolute {path cwd : Path} (hp : path.IsClean) (hcwd : cwd.IsNormal) :
    (path.absolute cwd).IsNormal := by
  have hroot : (cwd.append path).isAbsolute = true := by
    unfold Path.append
    split
    · assumption
    · exact hcwd.isAbsolute
  refine ⟨hroot, (hcwd.isClean.append hp).collapse, ?_⟩
  unfold Path.absolute Path.collapse
  rw [hroot]
  exact dotDot_not_mem_collapseNames List.not_mem_nil _

/-- The absolute form of what a text names is normal. -/
theorem absolute_ofText_isNormal (text : Text) {cwd : Path} (hcwd : cwd.IsNormal) :
    ((ofText text).absolute cwd).IsNormal :=
  (ofText_isClean text).absolute hcwd

/-- The text of an absolute path begins with a slash. -/
theorem toText_ne_nil {path : Path} (h : path.isAbsolute = true) : path.toText ≠ [] := by
  have hs : path.start ≠ .here := by simpa only [Path.isAbsolute, decide_eq_true_eq] using h
  unfold toText
  rw [if_neg fun hc => hs hc.1]
  cases hp : path.start with
  | here => exact absurd hp hs
  | root => exact List.cons_ne_nil _ _
  | doubleRoot => exact List.cons_ne_nil _ _

/-- Splitting a text is splitting a list. -/
theorem splitOn_eq (separator : Char) (text : Text) :
    Text.splitOn separator text = List.splitOn separator text := by
  induction text with
  | nil => rfl
  | cons c rest ih =>
    rw [Text.splitOn, ih, List.splitOn_cons_eq_if_modifyHead]
    simp only [beq_iff_eq]

/-- Joining texts is putting a list between lists. -/
theorem join_eq (separator : Text) (pieces : List Text) :
    Text.join separator pieces = separator.intercalate pieces := by
  induction pieces with
  | nil => rfl
  | cons first pieces ih =>
    cases pieces with
    | nil => exact List.intercalate_singleton.symm
    | cons next pieces => rw [Text.join, ih, List.intercalate_cons_cons]

/-- The names that reading keeps are those that stand for a step. -/
theorem filter_splitOn_join {names : List Name}
    (h : ∀ name ∈ names, name ≠ [] ∧ name ≠ dot ∧ '/' ∉ name) :
    (Text.splitOn '/' (Text.join ['/'] names)).filter (fun name => name ≠ [] ∧ name ≠ dot) =
      names := by
  by_cases hn : names = []
  · rw [hn]
    rfl
  · rw [splitOn_eq, join_eq, List.splitOn_intercalate '/' (fun name hname => (h name hname).2.2) hn,
      List.filter_eq_self]
    intro name hname
    simpa only [decide_eq_true_eq] using ⟨(h name hname).1, (h name hname).2.1⟩

/-- The text of clean names does not begin with a slash. -/
theorem join_ne_slash {names : List Name}
    (h : ∀ name ∈ names, name ≠ [] ∧ name ≠ dot ∧ '/' ∉ name) (rest : Text) :
    Text.join ['/'] names ≠ '/' :: rest := by
  intro he
  cases names with
  | nil => cases he
  | cons first names =>
    obtain ⟨hne, -, hslash⟩ := h first List.mem_cons_self
    cases first with
    | nil => exact hne rfl
    | cons c first =>
      have hc : c = '/' := by
        cases names <;> exact (List.cons.inj he).1
      exact hslash (hc ▸ List.mem_cons_self)

/-- One slash, or two of them, say where a path starts if no further slash follows. -/
theorem start_ofText {text : Text} (h : ∀ rest, text ≠ '/' :: rest) :
    Start.ofText ('/' :: text) = .root ∧ Start.ofText ('/' :: '/' :: text) = .doubleRoot := by
  cases text with
  | nil => exact ⟨rfl, rfl⟩
  | cons c text =>
    have hc : c ≠ '/' := fun hc => h text (hc ▸ rfl)
    simp [Start.ofText, hc]

/-- Reading the text of a normal path gives the path again. -/
theorem ofText_toText {path : Path} (h : path.IsNormal) : ofText path.toText = path := by
  obtain ⟨start, names⟩ := path
  have hclean : ∀ name ∈ names, name ≠ [] ∧ name ≠ dot ∧ '/' ∉ name := h.isClean
  obtain ⟨hroot, hdouble⟩ := start_ofText (join_ne_slash hclean)
  have hkept := filter_splitOn_join hclean
  cases start with
  | here => cases h.isAbsolute
  | root =>
    have htext : toText ⟨.root, names⟩ = '/' :: Text.join ['/'] names := rfl
    rw [htext, ofText, hroot, Text.splitOn, if_pos rfl]
    exact congrArg (Path.mk .root) hkept
  | doubleRoot =>
    have htext : toText ⟨.doubleRoot, names⟩ = '/' :: '/' :: Text.join ['/'] names := rfl
    rw [htext, ofText, hdouble, Text.splitOn, if_pos rfl, Text.splitOn, if_pos rfl]
    exact congrArg (Path.mk .doubleRoot) hkept

/-- Cancelling keeps names among which there is no double dot. -/
theorem collapseNames_of_not_mem {absolute : Bool} {above names : List Name}
    (h : dotDot ∉ names) : collapseNames absolute above names = above.reverse ++ names := by
  induction names generalizing above with
  | nil => exact (List.append_nil _).symm
  | cons first names ih =>
    rw [List.mem_cons, not_or] at h
    unfold collapseNames
    rw [if_pos (Ne.symm h.1), ih h.2, List.reverse_cons, List.append_assoc, List.singleton_append]

/-- A normal path is its own absolute form. -/
theorem IsNormal.absolute_eq {path : Path} (h : path.IsNormal) (cwd : Path) :
    path.absolute cwd = path := by
  unfold Path.absolute Path.collapse
  rw [append_of_isAbsolute h.isAbsolute, collapseNames_of_not_mem h.noDotDot]
  rfl

/-- A name that an entry of a directory can have. -/
def IsName (name : Name) : Prop := name ≠ [] ∧ name ≠ dot ∧ name ≠ dotDot ∧ '/' ∉ name

instance (name : Name) : Decidable (IsName name) := inferInstanceAs (Decidable (_ ∧ _))

/-- An entry of a directory with a normal path has a normal path. -/
theorem IsNormal.entry {path : Path} {name : Name} (h : path.IsNormal) (hname : IsName name) :
    (path.entry name).IsNormal := by
  obtain ⟨hne, hdot, hup, hslash⟩ := hname
  refine ⟨h.isAbsolute, fun other hother => ?_, fun hother => ?_⟩
  · rcases List.mem_append.mp hother with hother | hother
    · exact h.isClean other hother
    · rw [List.mem_singleton.mp hother]
      exact ⟨hne, hdot, hslash⟩
  · rcases List.mem_append.mp hother with hother | hother
    · exact h.noDotDot hother
    · exact hup (List.mem_singleton.mp hother).symm

end SourceLoom.Path
