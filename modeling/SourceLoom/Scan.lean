import SourceLoom.Files.System
import SourceLoom.Pattern.Match
import SourceLoom.Pattern.Reader

/-!
# Scanning directories

The regular files below a directory, in the order of their paths, as far as the directories on
the way can be listed and are neither excluded nor symbolic links; the choice among files by
patterns; and the directory that files have in common.
-/

namespace SourceLoom.Scan

variable {m : Type → Type} [Monad m]

/-- The names of directories that are not entered unless others are given. -/
def defaultExcluded : List Name := ["node_modules".toList]

/-- The files that a visit of each entry of a directory gives. -/
def gather (visit : Name → Path → ExceptT Files.Fault m (List Path)) (directory : Path) :
    List Name → ExceptT Files.Fault m (List Path)
  | [] => pure []
  | name :: names => do
    let here ← visit name (directory.entry name)
    let more ← gather visit directory names
    return here ++ more

/-- The files below a directory, down to so many levels. A directory that may not be listed has
no files; every other fault ends the scan. -/
def filesBelow (files : Files.System m) (excluded : List Name) :
    (levels : Nat) → Path → ExceptT Files.Fault m (List Path)
  | 0, _ => pure []
  | levels + 1, directory => do
    match ← Files.attempt (files.list directory) with
    | .error (.failed .denied _) => return []
    | .error fault => throw fault
    | .ok names =>
      gather (fun name path => do
        if ← files.isDirectory path then
          if name ∈ excluded then return []
          if ← files.isLink path then return []
          filesBelow files excluded levels path
        else if ← files.isFile path then return [path]
        else return []) directory (Text.sort names)

/-- The files below a directory. No path has as many names as a path may have bytes, so the scan
is never cut short. -/
def filesIn (files : Files.System m) (cwd : Path) (excluded : List Name) (directory : Path) :
    ExceptT Files.Fault m (List Path) :=
  filesBelow files excluded Files.pathLimit (directory.absolute cwd)

/-- Whether a pattern that is to be ignored occurs in the path of a file, seen from a directory or
as it stands. -/
def isIgnored (cwd directory : Path) (pattern : Pattern) (file : Path) : Bool :=
  pattern.occursIn (file.wayFrom cwd directory).toText || pattern.occursIn file.toText

/-- The files whose names a pattern occurs in and that another pattern does not ignore. -/
def select (cwd directory : Path) (pattern ignored : Option Pattern) (files : List Path) :
    List Path :=
  files.filter fun file =>
    pattern.all (fun p => p.occursIn file.name) &&
      ignored.all (fun p => !isIgnored cwd directory p file)

/-- A text that was to be a pattern and is none. -/
structure BadPattern where
  /-- The text. -/
  text : Text
  /-- Why it is no pattern. -/
  fault : Pattern.Fault
  deriving DecidableEq, Repr

/-- The message for a text that is no pattern. -/
def BadPattern.message (bad : BadPattern) : Text := bad.fault.message bad.text

/-- Whether the form of the text is to blame. -/
def BadPattern.isMalformed (bad : BadPattern) : Bool := bad.fault matches .refused _ _

/-- The pattern that a text describes; an empty text asks for none. -/
def patternOf : Option Text → Except BadPattern (Option Pattern)
  | none => .ok none
  | some [] => .ok none
  | some text =>
    match Pattern.read text with
    | .ok pattern => .ok (some pattern)
    | .error fault => .error ⟨text, fault⟩

/-- The files whose names a written pattern occurs in and that another does not ignore. -/
def filter (cwd directory : Path) (pattern ignored : Option Text) (files : List Path) :
    Except BadPattern (List Path) := do
  let pattern ← patternOf pattern
  let ignored ← patternOf ignored
  return select cwd directory pattern ignored files

/-- The deepest directory that holds all files; without files it is the working directory. -/
def commonBase (cwd : Path) (files : List Path) : Path :=
  match (files.map (·.absolute cwd)).eraseDups with
  | [] => cwd
  | [file] => file.parent
  | file :: others => ⟨.root, others.foldl (fun shared other =>
      Path.sharedNames shared other.names) file.names⟩

end SourceLoom.Scan
