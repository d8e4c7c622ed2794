import Mathlib.Data.List.Forall2
import SourceLoom.Document
import SourceLoom.Graph.Report
import SourceLoom.Proofs.Path.Shown

/-!
# Displayed paths

The path that is shown of a file from a base directory tells the file: what is shown leads to it
again, whether the file lies in the base directory or not. Banners and reports write slashes for the
backslashes in it. Where backslashes may stand in names, this is not the path of the file any more:
two files are displayed alike exactly if their shown paths differ only where one of them has a
backslash and the other a slash, and so one of the files has a backslash in a name.
-/

namespace SourceLoom

namespace Text

/-- Two texts differ, but only where one of them has a backslash and the other a slash. -/
def DifferInSlashes (s t : Text) : Prop :=
  s ≠ t ∧ List.Forall₂ (fun c d => c = d ∨ c = '\\' ∧ d = '/' ∨ c = '/' ∧ d = '\\') s t

variable {s t : Text}

/-- With slashes for backslashes two texts become the same if they are the same or differ in
slashes. -/
theorem replaceChar_slash_eq_iff :
    replaceChar '\\' '/' s = replaceChar '\\' '/' t ↔ s = t ∨ DifferInSlashes s t := by
  have hchar (c d : Char) : (if c = '\\' then '/' else c) = (if d = '\\' then '/' else d) ↔
      c = d ∨ c = '\\' ∧ d = '/' ∨ c = '/' ∧ d = '\\' := by
    by_cases hc : c = '\\' <;> by_cases hd : d = '\\' <;> simp [hc, hd, eq_comm]
  have hreplaced : replaceChar '\\' '/' s = replaceChar '\\' '/' t ↔
      List.Forall₂ (fun c d => c = d ∨ c = '\\' ∧ d = '/' ∨ c = '/' ∧ d = '\\') s t := by
    rw [replaceChar, replaceChar, ← List.forall₂_eq_eq_eq, List.forall₂_map_left_iff,
      List.forall₂_map_right_iff]
    simp only [hchar]
  rw [hreplaced]
  constructor
  · intro h
    by_cases hsame : s = t
    · exact Or.inl hsame
    · exact Or.inr ⟨hsame, h⟩
  · rintro (rfl | ⟨-, h⟩)
    · exact List.forall₂_same.mpr fun c _ => Or.inl rfl
    · exact h

/-- Texts that differ in slashes are not both without backslashes. -/
theorem DifferInSlashes.mem_backslash (h : DifferInSlashes s t) : '\\' ∈ s ∨ '\\' ∈ t := by
  by_contra hnone
  obtain ⟨hs, ht⟩ := not_or.mp hnone
  have hsame := replaceChar_slash_eq_iff.mpr (Or.inr h)
  rw [replaceChar_of_not_mem hs, replaceChar_of_not_mem ht] at hsame
  exact h.1 hsame

end Text

namespace Path

variable {cwd base file other : Path}

/-- What is shown of a normal path tells the path. -/
theorem toText_shownFrom_inj (hfile : file.IsNormal) (hother : other.IsNormal)
    (h : (file.shownFrom cwd base).toText = (other.shownFrom cwd base).toText) : file = other := by
  rw [← absolute_child_shownFrom hfile cwd base, h, absolute_child_shownFrom hother]

/-- A backslash that is shown of a normal path stands in a name of it. -/
theorem exists_name_of_mem_shownFrom (hfile : file.IsNormal)
    (h : '\\' ∈ (file.shownFrom cwd base).toText) : ∃ name ∈ file.names, '\\' ∈ name := by
  by_contra hnone
  push Not at hnone
  refine not_mem_toText (by decide) (by decide) (fun name hname => hnone name ?_) h
  exact names_shownFrom_subset hfile cwd base hname

/-- From every base directory, banners and reports display two normal paths alike exactly if they
are the same path, or if what is shown of them differs only where one has a backslash and the other
a slash. Then one of the paths has a name with a backslash, and so paths without backslashes are
told apart, wherever they lie. -/
theorem displayed_eq_iff (cwd base : Path) (hfile : file.IsNormal) (hother : other.IsNormal) :
    (Document.shownPath cwd base file = Document.shownPath cwd base other ↔
        file = other ∨ Text.DifferInSlashes (file.shownFrom cwd base).toText
          (other.shownFrom cwd base).toText) ∧
      (Graph.shownPath cwd base file = Graph.shownPath cwd base other ↔
        file = other ∨ Text.DifferInSlashes (file.shownFrom cwd base).toText
          (other.shownFrom cwd base).toText) ∧
      (Text.DifferInSlashes (file.shownFrom cwd base).toText (other.shownFrom cwd base).toText →
        (∃ name ∈ file.names, '\\' ∈ name) ∨ ∃ name ∈ other.names, '\\' ∈ name) := by
  have hdisplayed : Document.shownPath cwd base file = Document.shownPath cwd base other ↔
      file = other ∨ Text.DifferInSlashes (file.shownFrom cwd base).toText
        (other.shownFrom cwd base).toText := by
    rw [Document.shownPath, Document.shownPath, Text.replaceChar_slash_eq_iff]
    exact or_congr_left ⟨toText_shownFrom_inj hfile hother, fun hsame => hsame ▸ rfl⟩
  refine ⟨hdisplayed, hdisplayed, fun hdiffer => ?_⟩
  exact hdiffer.mem_backslash.imp (exists_name_of_mem_shownFrom hfile)
    (exists_name_of_mem_shownFrom hother)

/-- A file in the base directory whose name begins with a backslash is displayed like one outside
it, but files without backslashes are told apart. -/
theorem displayed_eq_iff_outside :
    (Path.ofText "/w/\\x".toList).IsNormal ∧ (Path.ofText "/x".toList).IsNormal ∧
      (Path.ofText "/w/x".toList).IsNormal ∧
      Document.shownPath .root (.ofText "/w".toList) (.ofText "/w/\\x".toList) =
        Document.shownPath .root (.ofText "/w".toList) (.ofText "/x".toList) ∧
      Graph.shownPath .root (.ofText "/w".toList) (.ofText "/w/x".toList) ≠
        Graph.shownPath .root (.ofText "/w".toList) (.ofText "/x".toList) := by
  have hodd : (Path.ofText "/w/\\x".toList).IsNormal := by decide
  have houter : (Path.ofText "/x".toList).IsNormal := by decide
  have hinner : (Path.ofText "/w/x".toList).IsNormal := by decide
  refine ⟨hodd, houter, hinner, ?_, fun hsame => ?_⟩
  · refine (displayed_eq_iff .root (.ofText "/w".toList) hodd houter).1.mpr (Or.inr ⟨by decide, ?_⟩)
    exact .cons (by decide) (.cons (by decide) .nil)
  · obtain ⟨-, hgraph, hbackslash⟩ := displayed_eq_iff .root (.ofText "/w".toList) hinner houter
    rcases hgraph.mp hsame with hfile | hdiffer
    · exact absurd hfile (by decide)
    · exact absurd (hbackslash hdiffer) (by decide)

/-- Two different files may be displayed alike in banners and in reports. -/
theorem exists_files_confused : ¬ ∀ cwd base file other : Path, base.isAbsolute = true →
    file.IsNormal → other.IsNormal → file ≠ other →
      Document.shownPath cwd base file ≠ Document.shownPath cwd base other ∨
        Graph.shownPath cwd base file ≠ Graph.shownPath cwd base other := by
  intro hall
  have hdiffer := hall .root (.ofText "/w".toList) (.ofText "/w/a\\b.js".toList)
    (.ofText "/w/a/b.js".toList) (by decide) (by decide) (by decide) (by decide +kernel)
  have hsame : Document.shownPath .root (.ofText "/w".toList) (.ofText "/w/a\\b.js".toList) =
      Document.shownPath .root (.ofText "/w".toList) (.ofText "/w/a/b.js".toList) := by decide
  exact hdiffer.elim (absurd hsame) (absurd hsame)

end Path

end SourceLoom
