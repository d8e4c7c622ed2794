import SourceLoom.Proofs.Path.Shown
import SourceLoom.Proofs.Path.Slashes
import SourceLoom.Proofs.Text.Lines

/-!
# Pieces of paths

The pieces of a text between its slashes are the names of the path that is read from it, and empty
pieces and single dots that mean nothing. Text that is put behind a path without a slash between
them becomes part of the last name, up to its own first slash.
-/

namespace SourceLoom

namespace Text

variable {separator : Char} {pieces : List Text}

/-- What comes behind joined pieces only changes the last of them, up to its own separators. -/
theorem splitOn_join_append (h : ∀ piece ∈ pieces, separator ∉ piece) (last ending : Text) :
    splitOn separator (join [separator] (pieces ++ [last]) ++ ending) =
      pieces ++ splitOn separator (last ++ ending) := by
  induction pieces with
  | nil => rfl
  | cons piece pieces ih =>
    obtain ⟨hpiece, hpieces⟩ := List.forall_mem_cons.mp h
    have hjoin : join [separator] (piece :: pieces ++ [last]) =
        piece ++ separator :: join [separator] (pieces ++ [last]) := by
      cases pieces <;> simp [join]
    rw [hjoin, List.append_assoc, splitOn_append_of_not_mem hpiece, List.cons_append, splitOn,
      if_pos rfl, ih hpieces]
    simp

/-- A text with another character than the separator has a piece with that character. -/
theorem exists_mem_splitOn {c : Char} {text : Text} (hc : c ∈ text) (hne : c ≠ separator) :
    ∃ piece ∈ splitOn separator text, c ∈ piece := by
  rw [← join_splitOn separator text] at hc
  rcases mem_join hc with h | h
  · exact absurd (List.mem_singleton.mp h) hne
  · exact h

/-- Joined pieces without separators are split into themselves. -/
theorem splitOn_join (h : ∀ piece ∈ pieces, separator ∉ piece) (hne : pieces ≠ []) :
    splitOn separator (join [separator] pieces) = pieces := by
  rw [Path.splitOn_eq, Path.join_eq, List.splitOn_intercalate separator h hne]

/-- A character of a piece is one of the joined text. -/
theorem mem_join_of_mem {c : Char} {glue piece : Text} (hpiece : piece ∈ pieces) (hc : c ∈ piece) :
    c ∈ join glue pieces := by
  induction pieces with
  | nil => cases hpiece
  | cons first pieces ih =>
    cases pieces with
    | nil =>
      rw [List.mem_singleton.mp hpiece] at hc
      exact hc
    | cons next pieces =>
      rw [join]
      rcases List.mem_cons.mp hpiece with rfl | hpiece
      · exact List.mem_append_left _ (List.mem_append_left _ hc)
      · exact List.mem_append_right _ (ih hpiece)

/-- A character of a piece of a text is one of the text. -/
theorem mem_of_mem_splitOn {c : Char} {text piece : Text}
    (hpiece : piece ∈ splitOn separator text) (hc : c ∈ piece) : c ∈ text := by
  rw [← join_splitOn separator text]
  exact mem_join_of_mem hpiece hc

end Text

namespace Path

variable {path : Path} {name last : Name} {text ending : Text} {pieces more : List Text}

/-- The pieces of a text that stand for a step. -/
def stepsOf (pieces : List Text) : List Name := pieces.filter fun name => name ≠ [] ∧ name ≠ dot

/-- The names of a path that is read are the pieces of its text that stand for a step. -/
theorem names_ofText (text : Text) : (ofText text).names = stepsOf (Text.splitOn '/' text) := rfl

/-- A piece stands for a step if it is not empty and no single dot. -/
theorem mem_stepsOf : name ∈ stepsOf pieces ↔ name ∈ pieces ∧ name ≠ [] ∧ name ≠ dot := by
  simp [stepsOf]

/-- The steps of pieces are taken one after the other. -/
theorem stepsOf_append : stepsOf (pieces ++ more) = stepsOf pieces ++ stepsOf more :=
  List.filter_append pieces more

/-- A name in front is a step. -/
theorem stepsOf_cons (h : name ≠ [] ∧ name ≠ dot) :
    stepsOf (name :: pieces) = name :: stepsOf pieces :=
  List.filter_cons_of_pos (by simpa using h)

/-- Clean names are all steps. -/
theorem stepsOf_eq_self (h : ∀ piece ∈ pieces, piece ≠ [] ∧ piece ≠ dot ∧ '/' ∉ piece) :
    stepsOf pieces = pieces := by
  refine List.filter_eq_self.mpr fun piece hpiece => ?_
  simpa only [decide_eq_true_eq] using ⟨(h piece hpiece).1, (h piece hpiece).2.1⟩

/-- The text of an absolute path is its slashes and its names. -/
theorem toText_of_isAbsolute (h : path.isAbsolute = true) :
    path.toText = path.start.toText ++ Text.join ['/'] path.names := by
  have hstart : path.start ≠ .here := of_decide_eq_true h
  exact if_neg fun hboth => hstart hboth.1

/-- The pieces of the text of a clean absolute path are its names behind one or two empty pieces,
and one empty piece more where there is no name. -/
theorem splitOn_toText (habsolute : path.isAbsolute = true) (hclean : path.IsClean) :
    ∃ slashes, (∀ piece ∈ slashes, piece = []) ∧ slashes ≠ [] ∧
      Text.splitOn '/' path.toText = slashes ++ path.names := by
  obtain ⟨start, names⟩ := path
  have hslash : ∀ name ∈ names, '/' ∉ name := fun name hname => (hclean name hname).2.2
  rw [toText_of_isAbsolute habsolute]
  by_cases hempty : names = []
  · subst hempty
    cases start with
    | here => cases habsolute
    | root => exact ⟨[[], []], by decide, by decide, rfl⟩
    | doubleRoot => exact ⟨[[], [], []], by decide, by decide, rfl⟩
  · have hjoin := Text.splitOn_join hslash hempty
    cases start with
    | here => cases habsolute
    | root => exact ⟨[[]], by decide, by decide, congrArg (List.cons []) hjoin⟩
    | doubleRoot =>
      exact ⟨[[], []], by decide, by decide, congrArg (fun pieces => [] :: [] :: pieces) hjoin⟩

/-- What is put behind the text of a clean path, and does not begin with a slash, becomes part of
its last name, and more names may follow. -/
theorem ofText_toText_append (habsolute : path.isAbsolute = true) (hclean : path.IsClean)
    {names : List Name} (hnames : path.names = names ++ [last])
    (hending : ending.head? ≠ some '/') :
    ofText (path.toText ++ ending) =
      { path with names := names ++ (ofText (last ++ ending)).names } := by
  have hne := join_append_ne_slash hclean hending
  obtain ⟨hroot, hdouble⟩ := start_ofText hne
  have hinner : ∀ name ∈ names, name ≠ [] ∧ name ≠ dot ∧ '/' ∉ name := fun name hname =>
    hclean name (hnames ▸ List.mem_append_left _ hname)
  have hsteps : stepsOf (Text.splitOn '/' (Text.join ['/'] path.names ++ ending)) =
      names ++ (ofText (last ++ ending)).names := by
    rw [hnames, Text.splitOn_join_append fun name hname => (hinner name hname).2.2, stepsOf_append,
      stepsOf_eq_self hinner, names_ofText]
  refine eq_of_start_names ?_ ?_
  · rw [toText_of_isAbsolute habsolute]
    cases hstart : path.start with
    | here => exact absurd hstart (of_decide_eq_true habsolute)
    | root => exact hroot
    | doubleRoot => exact hdouble
  · rw [names_ofText, ← hsteps, toText_of_isAbsolute habsolute]
    cases hstart : path.start with
    | here => exact absurd hstart (of_decide_eq_true habsolute)
    | root => rfl
    | doubleRoot => rfl

/-- A name with an ending begins with a name again, and no double dot comes from it if the ending
has none. -/
theorem names_ofText_append_ending (hlast : last ≠ [] ∧ last ≠ dot ∧ '/' ∉ last)
    (hdot : ending.head? = some '.') (hdots : dotDot ∉ Text.splitOn '/' ending) :
    (ofText (last ++ ending)).names ≠ [] ∧ dotDot ∉ (ofText (last ++ ending)).names := by
  obtain ⟨hne, hsingle, hslash⟩ := hlast
  obtain ⟨tail, rfl⟩ := List.head?_eq_some_iff.mp hdot
  obtain ⟨first, others, htail⟩ := List.exists_cons_of_ne_nil (Text.splitOn_ne_nil '/' tail)
  have hending : Text.splitOn '/' ('.' :: tail) = ('.' :: first) :: others := by
    rw [Text.splitOn, if_neg (by decide), htail]
    rfl
  have hglued : Text.splitOn '/' (last ++ '.' :: tail) = (last ++ '.' :: first) :: others := by
    rw [Text.splitOn_append_of_not_mem hslash, hending]
    rfl
  have hname : last ++ '.' :: first ≠ [] ∧ last ++ '.' :: first ≠ dot ∧
      last ++ '.' :: first ≠ dotDot := by
    obtain ⟨c, last, rfl⟩ := List.exists_cons_of_ne_nil hne
    refine ⟨List.cons_ne_nil _ _, ?_, ?_⟩
    · cases last <;> simp [dot]
    · cases last with
      | nil =>
        intro hboth
        exact hsingle (congrArg (fun name => name.take 1) hboth)
      | cons d last => simp [dotDot]
  rw [names_ofText, hglued]
  constructor
  · exact List.ne_nil_of_mem (mem_stepsOf.mpr ⟨List.mem_cons_self, hname.1, hname.2.1⟩)
  · intro hmem
    rcases List.mem_cons.mp (mem_stepsOf.mp hmem).1 with heq | hother
    · exact hname.2.2 heq.symm
    · exact hdots (hending ▸ List.mem_cons_of_mem _ hother)

/-- The names of the absolute form of a text are found by cancelling double dots from where the text
is seen from. -/
theorem names_absolute {cwd : Path} (hcwd : cwd.IsNormal) (text : Text) :
    ((ofText text).absolute cwd).names =
      collapseNames true (if (ofText text).isAbsolute then [] else cwd.names).reverse
        (stepsOf (Text.splitOn '/' text)) := by
  unfold absolute append
  split
  · rename_i habsolute
    unfold collapse
    rw [habsolute]
    rfl
  · have hnames : collapseNames true [] cwd.names = cwd.names := by
      rw [collapseNames_of_not_mem hcwd.noDotDot]
      rfl
    have hsame : (Path.mk cwd.start (cwd.names ++ (ofText text).names)).isAbsolute = true :=
      hcwd.isAbsolute
    unfold collapse
    rw [hsame]
    dsimp only
    rw [collapseNames_append, hnames]
    rfl

/-- A character of a name is one of the text of an absolute path. -/
theorem mem_toText {c : Char} (habsolute : path.isAbsolute = true) (hname : name ∈ path.names)
    (hc : c ∈ name) : c ∈ path.toText := by
  rw [toText_of_isAbsolute habsolute]
  exact List.mem_append_right _ (Text.mem_join_of_mem hname hc)

/-- The absolute form of a text has no characters but those of the text and of the working
directory, slashes and dots. -/
theorem not_mem_toText_absolute {c : Char} {cwd : Path} (hslash : c ≠ '/') (hdot : c ≠ '.')
    (hcwd : cwd.IsNormal) (hwork : c ∉ cwd.toText) (htext : c ∉ text) :
    c ∉ ((ofText text).absolute cwd).toText := by
  refine not_mem_toText hslash hdot fun name hname hc => ?_
  rw [names_absolute hcwd] at hname
  rcases mem_collapseNames hname with hstart | hpiece | hup
  · rw [List.mem_reverse] at hstart
    split at hstart
    · cases hstart
    · exact hwork (mem_toText hcwd.isAbsolute hstart hc)
  · exact htext (Text.mem_of_mem_splitOn (mem_stepsOf.mp hpiece).1 hc)
  · rw [hup] at hc
    exact hdot (by simpa [dotDot] using hc)

end Path

end SourceLoom
