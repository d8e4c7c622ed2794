import SourceLoom.Files.System
import SourceLoom.Glob
import SourceLoom.Outline
import SourceLoom.Reference.Resolution

/-!
# Surveys of a project

The outline of the directories and files of a project, a few levels deep and without what tools
leave behind. A directory ends with a slash; deep in the outline it is left out if nothing in it
is shown.
-/

namespace SourceLoom.Survey

variable {m : Type → Type} [Monad m]

/-- What a survey passes over. -/
inductive Event where
  /-- A directory that could not be listed. -/
  | unlisted (directory : Path) (fault : Files.Fault)
  /-- An entry that could not be examined. -/
  | unexamined (entry : Path) (fault : Files.Fault)
  deriving DecidableEq, Repr

/-- The message for what is passed over. -/
def Event.message : Event → Text
  | unlisted directory fault =>
    "Cannot list ".toList ++ directory.toText ++ ": ".toList ++ fault.message
  | unexamined entry fault =>
    "Cannot access ".toList ++ entry.toText ++ ": ".toList ++ fault.message

/-- The patterns of the names that are not shown. -/
def hiddenNames : List Text :=
  ["node_modules", ".git", ".svn", ".hg", "dist", "build", "out", ".next", ".nuxt", ".cache",
   ".temp", ".tmp", "tmp", "coverage", ".nyc_output", ".coverage", "logs", "*.log", ".env",
   ".env.*", ".DS_Store", "Thumbs.db", "*.swp", "*.swo", ".vscode", ".idea", "*.iml",
   ".eslintcache", "*.tsbuildinfo", "npm-debug.log*", "yarn-error.log*", "lerna-debug.log*",
   ".pnpm-debug.log*"].map String.toList

/-- Whether a name is hidden by one of some patterns. -/
def isHidden (patterns : List Text) (name : Name) : Bool := patterns.any (Glob.fits · name)

/-- How many levels are shown unless another number is given. -/
def defaultDepth : Int := 3

/-- Directories on so many levels are shown even if nothing in them is. -/
def alwaysShown : Int := 2

/-- The outline of the entries of a directory with some names. -/
def entries (files : Files.System m) (tell : Event → m Unit)
    (below : Path → ExceptT Files.Fault m Outline) (level : Int) (directory : Path) :
    List Name → ExceptT Files.Fault m Outline
  | [] => pure .nil
  | name :: names => do
    if isHidden hiddenNames name then entries files tell below level directory names
    else
      let path := directory.entry name
      match ← Files.attempt (files.isDirectory path) with
      | .error .nullInPath => throw .nullInPath
      | .error fault =>
        tell (.unexamined path fault)
        entries files tell below level directory names
      | .ok false => return .entry name .nil (← entries files tell below level directory names)
      | .ok true =>
        let inner ← below path
        let next ← entries files tell below level directory names
        if inner ≠ .nil ∨ level < alwaysShown then return .entry (name ++ ['/']) inner next
        else return next

/-- The outline of a directory, so many levels deep; `level` is the level of its entries. -/
def outlineFrom (files : Files.System m) (tell : Event → m Unit) :
    (levels : Nat) → (level : Int) → Path → ExceptT Files.Fault m Outline
  | 0, _, _ => pure .nil
  | levels + 1, level, directory => do
    match ← Files.attempt (files.list directory) with
    | .error .nullInPath => throw .nullInPath
    | .error fault =>
      tell (.unlisted directory fault)
      return .nil
    | .ok names =>
      entries files tell (outlineFrom files tell levels (level + 1)) level directory
        (Text.sort names)

/-- The outline of a directory on a level, down to a depth. -/
def outline (files : Files.System m) (tell : Event → m Unit) (depth level : Int)
    (directory : Path) : ExceptT Files.Fault m Outline :=
  outlineFrom files tell (depth - level).toNat level directory

/-- A name inside a directory, whose project is then sought. -/
def probe : Name := "__probe__".toList

/-- The drawing of the project that a directory belongs to, and the directory it is drawn from:
the root of the project, or the given directory if no root is found. -/
def draw (files : Files.System m) (tell : Event → m Unit) (conventions : Conventions)
    (style : Outline.Style) (depth : Int) (cwd directory : Path) :
    ExceptT Files.Fault m (Text × Path) := do
  let found ← Reference.findRoot conventions files.holds cwd (directory.entry probe)
  let root := found.getD directory
  let outline ← outline files tell depth 0 root
  return (outline.draw style, root)

end SourceLoom.Survey
