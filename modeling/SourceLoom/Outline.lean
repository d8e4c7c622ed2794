import SourceLoom.Path

/-!
# Outlines

An outline is a list of named entries, each with an outline of its own below it. It is drawn one
entry per line: what stands before a name shows, for each entry above it, whether that entry is
the last of its list.
-/

namespace SourceLoom

/-- A list of named entries with what is below them. -/
inductive Outline where
  /-- No entries. -/
  | nil
  /-- An entry, what is below it, and the entries after it. -/
  | entry (name : Text) (below next : Outline)
  deriving DecidableEq, Repr, Inhabited

namespace Outline

/-- The outline of one path. -/
def ofNames : List Text → Outline
  | [] => nil
  | name :: names => entry name (ofNames names) nil

/-- The outline with a path in it. Where a name is already there, the path goes on below it; a new
name comes last. -/
def add : Outline → List Text → Outline
  | outline, [] => outline
  | nil, name :: names => ofNames (name :: names)
  | entry first below next, name :: names =>
    if first = name then entry first (add below names) next
    else entry first below (add next (name :: names))

/-- The pieces that a drawing is made of. -/
structure Style where
  /-- Before an entry with others after it. -/
  branch : Text
  /-- Before the last entry of a list. -/
  last : Text
  /-- Below an entry with others after it. -/
  vertical : Text
  /-- Below the last entry of a list. -/
  space : Text
  deriving DecidableEq, Repr

namespace Style

/-- Drawn with lines. -/
def lines : Style := ⟨"├── ".toList, "└── ".toList, "│   ".toList, "    ".toList⟩

/-- Drawn with characters of ASCII alone. -/
def ascii : Style := ⟨"|-- ".toList, "\\-- ".toList, "|   ".toList, "    ".toList⟩

/-- The styles with their names. -/
def all : List (Text × Style) := [("tree".toList, lines), ("ascii".toList, ascii)]

/-- The style with a name. -/
def named? (name : Text) : Option Style := all.lookup name

/-- The style of a name; a name that no style has stands for lines. -/
def ofName (name : Text) : Style := (named? name).getD lines

end Style

/-- The lines of a drawing, each after the given indentation. -/
def drawnLines (style : Style) : (indentation : Text) → Outline → List Text
  | _, nil => []
  | indentation, entry name below next =>
    let isLast := next = nil
    (indentation ++ (if isLast then style.last else style.branch) ++ name) ::
      drawnLines style (indentation ++ if isLast then style.space else style.vertical) below ++
        drawnLines style indentation next

/-- The drawing of an outline; every line ends with a line feed. -/
def draw (style : Style) (outline : Outline) : Text :=
  (drawnLines style [] outline).flatMap (· ++ ['\n'])

/-- The outline of files, each shown from a base directory, in the order of their paths. -/
def ofFiles (cwd base : Path) (files : List Path) : Outline :=
  (Path.sort files).foldl (fun outline file => outline.add (file.shownFrom cwd base).components) nil

end Outline

end SourceLoom
