import SourceLoom.Proofs.Path.Normal

/-!
# Reading shown paths

A path is shown from a directory by the names that lead to it, if it lies in the directory, and
else as it is. Read inside the directory, what is shown leads to the path again, also where the
directory is given with double dots or is the path itself.
-/

namespace SourceLoom

namespace Text

/-- A character of joined texts is one of theirs or of the separator. -/
theorem mem_join {c : Char} {separator : Text} {pieces : List Text}
    (h : c ∈ join separator pieces) : c ∈ separator ∨ ∃ piece ∈ pieces, c ∈ piece := by
  induction pieces with
  | nil => exact absurd h List.not_mem_nil
  | cons piece pieces ih =>
    cases pieces with
    | nil => exact Or.inr ⟨piece, List.mem_cons_self, h⟩
    | cons next pieces =>
      rw [join, List.mem_append, List.mem_append] at h
      rcases h with (h | h) | h
      · exact Or.inr ⟨piece, List.mem_cons_self, h⟩
      · exact Or.inl h
      · rcases ih h with h | ⟨other, hother, hc⟩
        · exact Or.inl h
        · exact Or.inr ⟨other, List.mem_cons_of_mem _ hother, hc⟩

/-- A character that is not in a text is replaced nowhere. -/
theorem replaceChar_of_not_mem {old : Char} {text : Text} (h : old ∉ text) (new : Char) :
    replaceChar old new text = text := by
  have hkept : text.map (fun c => if c = old then new else c) = text.map id :=
    List.map_congr_left fun c hc => if_neg fun (hold : c = old) => h (hold ▸ hc)
  rw [replaceChar, hkept, List.map_id]

end Text

namespace Path

/-- Names come after others exactly if these begin them. -/
theorem namesAfter?_eq_some_iff {before names rest : List Name} :
    namesAfter? before names = some rest ↔ names = before ++ rest := by
  induction before generalizing names with
  | nil =>
    rw [namesAfter?, Option.some_inj]
    rfl
  | cons first before ih =>
    cases names with
    | nil => simp [namesAfter?]
    | cons name names =>
      rw [namesAfter?, List.cons_append, List.cons.injEq]
      split
      · rename_i hname
        rw [ih]
        exact ⟨fun h => ⟨hname.symm, h⟩, fun h => h.2⟩
      · rename_i hname
        exact ⟨fun h => (Option.some_ne_none _ h.symm).elim, fun h => absurd h.1.symm hname⟩

/-- Names lead from a directory to a path exactly if they follow those of the directory. -/
theorem below?_eq_some_iff {base path : Path} {names : List Name} :
    below? base path = some names ↔ path = { base with names := base.names ++ names } := by
  obtain ⟨start, pathNames⟩ := path
  unfold below?
  split
  · rename_i hstart
    rw [namesAfter?_eq_some_iff, Path.mk.injEq]
    exact ⟨fun h => ⟨hstart.symm, h⟩, fun h => h.2⟩
  · rename_i hstart
    simp [Ne.symm hstart]

/-- The names so far, innermost first, after one more name. -/
def withName (absolute : Bool) (above : List Name) (name : Name) : List Name :=
  if name ≠ dotDot then name :: above
  else match above with
    | [] => if absolute then [] else [dotDot]
    | last :: rest => if last = dotDot then dotDot :: above else rest

/-- Cancelling goes name by name. -/
theorem collapseNames_cons (absolute : Bool) (above : List Name) (name : Name)
    (names : List Name) : collapseNames absolute above (name :: names) =
      collapseNames absolute (withName absolute above name) names := by
  rw [collapseNames.eq_def]
  unfold withName
  dsimp only
  split
  · rfl
  · cases above with
    | nil => rfl
    | cons last rest =>
      dsimp only
      split <;> rfl

/-- Double dots are cancelled from the front. -/
theorem collapseNames_append (absolute : Bool) (above names more : List Name) :
    collapseNames absolute above (names ++ more) =
      collapseNames absolute (collapseNames absolute above names).reverse more := by
  induction names generalizing above with
  | nil =>
    have hnil : collapseNames absolute above [] = above.reverse := by
      rw [collapseNames.eq_def]
    rw [hnil, List.reverse_reverse, List.nil_append]
  | cons name names ih =>
    rw [List.cons_append, collapseNames_cons, collapseNames_cons, ih]

/-- Names without double dots below a directory stay below its absolute form. -/
theorem absolute_below (base cwd : Path) {names : List Name} (h : dotDot ∉ names) :
    absolute { base with names := base.names ++ names } cwd =
      { base.absolute cwd with names := (base.absolute cwd).names ++ names } := by
  have hcollapse (absolute : Bool) (before : List Name) :
      collapseNames absolute [] (before ++ names) = collapseNames absolute [] before ++ names := by
    rw [collapseNames_append, collapseNames_of_not_mem h, List.reverse_reverse]
  unfold absolute append
  split
  · rename_i habsolute
    have hbase : base.isAbsolute = true := habsolute
    rw [if_pos hbase]
    exact congrArg (Path.mk base.start) (hcollapse _ _)
  · rename_i hrelative
    have hbase : ¬ base.isAbsolute = true := hrelative
    rw [if_neg hbase]
    have hnames := hcollapse cwd.isAbsolute (cwd.names ++ base.names)
    rw [List.append_assoc] at hnames
    exact congrArg (Path.mk cwd.start) hnames

/-- Reading the text of clean names from the working directory gives the names again. -/
theorem ofText_toText_here {names : List Name}
    (h : ∀ name ∈ names, name ≠ [] ∧ name ≠ dot ∧ '/' ∉ name) :
    ofText (toText ⟨.here, names⟩) = ⟨.here, names⟩ := by
  by_cases hempty : names = []
  · rw [hempty]
    decide
  · have htext : toText ⟨.here, names⟩ = Text.join ['/'] names := by
      rw [toText, if_neg fun hboth => hempty hboth.2]
      rfl
    have hstart : Start.ofText (Text.join ['/'] names) = .here := by
      unfold Start.ofText
      split
      · rename_i heq
        exact absurd heq (join_ne_slash h _)
      · rename_i heq
        exact absurd heq (join_ne_slash h _)
      · rename_i heq
        exact absurd heq (join_ne_slash h _)
      · rfl
    rw [htext, ofText, hstart]
    exact congrArg (Path.mk .here) (filter_splitOn_join h)

/-- What is shown of a normal path from a directory leads to the path again, read in the
directory. -/
theorem absolute_child_shownFrom {path : Path} (h : path.IsNormal) (cwd base : Path) :
    (base.child (path.shownFrom cwd base).toText).absolute cwd = path := by
  unfold shownFrom
  rw [h.absolute_eq]
  split
  · rename_i names hbelow
    have hpath := below?_eq_some_iff.mp hbelow
    have hnames : path.names = (base.absolute cwd).names ++ names := congrArg Path.names hpath
    have hclean : ∀ name ∈ names, name ≠ [] ∧ name ≠ dot ∧ '/' ∉ name := fun name hname =>
      h.isClean name (hnames ▸ List.mem_append_right _ hname)
    have hdots : dotDot ∉ names := fun hmem => h.noDotDot (hnames ▸ List.mem_append_right _ hmem)
    -- the double dots of the directory are cancelled only after the names are put behind them
    have hchild : base.child (toText ⟨.here, names⟩) =
        { base with names := base.names ++ names } := by
      rw [child, ofText_toText_here hclean]
      rfl
    rw [hchild, absolute_below base cwd hdots]
    exact hpath.symm
  · rw [child, ofText_toText h, append_of_isAbsolute h.isAbsolute]
    exact h.absolute_eq cwd

/-- No character is shown but those of the names, slashes and a dot. -/
theorem not_mem_toText {c : Char} {path : Path} (hslash : c ≠ '/') (hdot : c ≠ '.')
    (h : ∀ name ∈ path.names, c ∉ name) : c ∉ path.toText := by
  intro hmem
  unfold toText at hmem
  split at hmem
  · exact hdot (List.mem_singleton.mp hmem)
  · rcases List.mem_append.mp hmem with hstart | hnames
    · cases hpath : path.start <;> simp_all [Start.toText]
    · rcases Text.mem_join hnames with hseparator | ⟨name, hname, hc⟩
      · exact hslash (List.mem_singleton.mp hseparator)
      · exact h name hname hc

/-- A path is shown with no other names than its own. -/
theorem names_shownFrom_subset {path : Path} (h : path.IsNormal) (cwd base : Path) :
    (path.shownFrom cwd base).names ⊆ path.names := by
  unfold shownFrom
  rw [h.absolute_eq]
  split
  · rename_i names hbelow
    have hnames : path.names = (base.absolute cwd).names ++ names :=
      congrArg Path.names (below?_eq_some_iff.mp hbelow)
    exact fun name hname => hnames ▸ List.mem_append_right _ hname
  · exact fun name hname => hname

end Path

end SourceLoom
