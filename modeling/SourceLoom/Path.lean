import SourceLoom.Text

/-!
# Paths

A path is a start and a list of names. Reading one drops what means nothing, empty names and
single dots, and keeps what may mean something on disk: double dots, and a start of exactly two
slashes. The absolute form of a path also cancels every double dot against the name before it;
it is found without looking at any file, and it identifies a file in this library.
-/

namespace SourceLoom

/-- A name in a path: a text without a slash. -/
abbrev Name := Text

/-- Where a path starts. -/
inductive Start where
  /-- At the working directory. -/
  | here
  /-- At the root directory. -/
  | root
  /-- At the root directory, spelt with two slashes. -/
  | doubleRoot
  deriving DecidableEq, Repr

namespace Start

/-- The slashes a path begins with. -/
def toText : Start → Text
  | here => []
  | root => ['/']
  | doubleRoot => ['/', '/']

/-- Where a text starts as a path. Three or more slashes mean the same as one. -/
def ofText : Text → Start
  | '/' :: '/' :: '/' :: _ => root
  | '/' :: '/' :: _ => doubleRoot
  | '/' :: _ => root
  | _ => here

end Start

/-- A path: where it starts and the names that follow. -/
structure Path where
  /-- Where it starts. -/
  start : Start
  /-- The names, outermost first. -/
  names : List Name
  deriving DecidableEq, Repr

namespace Path

/-- The name of a directory's own entry. -/
def dot : Name := ['.']

/-- The name of the directory above. -/
def dotDot : Name := ['.', '.']

/-- Reads a path. -/
def ofText (text : Text) : Path where
  start := .ofText text
  names := (Text.splitOn '/' text).filter fun name => name ≠ [] ∧ name ≠ dot

/-- The text of a path; the path without start and names is a single dot. -/
def toText (path : Path) : Text :=
  if path.start = .here ∧ path.names = [] then dot
  else path.start.toText ++ Text.join ['/'] path.names

/-- Whether a path does not depend on the working directory. -/
def isAbsolute (path : Path) : Bool := path.start ≠ .here

/-- The root directory. -/
def root : Path := ⟨.root, []⟩

/-- The components by which paths are ordered and compared: the start, if there is one, and the
names. -/
def components (path : Path) : List Text :=
  if path.start = .here then path.names else path.start.toText :: path.names

/-- Whether one list of texts comes strictly before another, by their first difference. -/
def componentsBefore : List Text → List Text → Bool
  | [], [] => false
  | [], _ :: _ => true
  | _ :: _, [] => false
  | s :: ss, t :: ts => if s = t then componentsBefore ss ts else Text.before s t

/-- Whether one path comes strictly before another. -/
def before (p q : Path) : Bool := componentsBefore p.components q.components

/-- Paths in increasing order. -/
def sort (paths : List Path) : List Path := paths.mergeSort fun p q => !before q p

/-- The last name, empty for a path without names. -/
def name (path : Path) : Name := path.names.getLastD []

/-- The directory that holds a path; a path without names holds itself. -/
def parent (path : Path) : Path := { path with names := path.names.dropLast }

/-- The ending of the last name from its last dot, if something stands before and after it. -/
def suffix (path : Path) : Text :=
  let ending := path.name.reverse.takeWhile (· ≠ '.')
  if ending ≠ [] ∧ ending.length + 1 < path.name.length then '.' :: ending.reverse else []

/-- A path seen from another: an absolute one stays as it is. -/
def append (base path : Path) : Path :=
  if path.isAbsolute then path else { base with names := base.names ++ path.names }

/-- The path a text names inside a directory. -/
def child (base : Path) (text : Text) : Path := base.append (ofText text)

/-- An entry of a directory. -/
def entry (base : Path) (name : Name) : Path := { base with names := base.names ++ [name] }

/-- Cancels double dots. `above` holds the names so far, innermost first; a double dot with
nothing to cancel stays in a relative path and disappears at the root. -/
def collapseNames (absolute : Bool) : (above : List Name) → List Name → List Name
  | above, [] => above.reverse
  | above, name :: names =>
    if name ≠ dotDot then collapseNames absolute (name :: above) names
    else match above with
      | [] => collapseNames absolute (if absolute then [] else [dotDot]) names
      | last :: rest =>
        if last = dotDot then collapseNames absolute (dotDot :: above) names
        else collapseNames absolute rest names

/-- A path whose double dots are cancelled as far as possible. -/
def collapse (path : Path) : Path :=
  { path with names := collapseNames path.isAbsolute [] path.names }

/-- The absolute form of a path, seen from a working directory. -/
def absolute (path cwd : Path) : Path := (cwd.append path).collapse

/-- The directories that names given innermost first lead through, innermost first. -/
def upwardFrom (start : Start) : List Name → List Path
  | [] => [⟨start, []⟩]
  | last :: above => ⟨start, (last :: above).reverse⟩ :: upwardFrom start above

/-- A directory and every directory above it, nearest first. -/
def upward (directory : Path) : List Path := upwardFrom directory.start directory.names.reverse

/-- What follows the first of two lists of names in the second, if it begins it. -/
def namesAfter? : List Name → List Name → Option (List Name)
  | [], names => some names
  | _ :: _, [] => none
  | a :: as, b :: bs => if a = b then namesAfter? as bs else none

/-- The names that lead from a directory to a path in it. -/
def below? (base path : Path) : Option (List Name) :=
  if base.start = path.start then namesAfter? base.names path.names else none

/-- A path as it is shown from a base directory: relative where it lies in it, and else as it
was given. -/
def shownFrom (path cwd base : Path) : Path :=
  match below? (base.absolute cwd) (path.absolute cwd) with
  | some names => ⟨.here, names⟩
  | none => path

/-- The leading names that two lists share. -/
def sharedNames : List Name → List Name → List Name
  | a :: as, b :: bs => if a = b then a :: sharedNames as bs else []
  | _, _ => []

/-- The way from a directory to a path, up where it must and then down. -/
def wayFrom (path cwd base : Path) : Path :=
  let source := (base.absolute cwd).names
  let target := (path.absolute cwd).names
  let shared := (sharedNames source target).length
  ⟨.here, List.replicate (source.length - shared) dotDot ++ target.drop shared⟩

end Path

end SourceLoom
