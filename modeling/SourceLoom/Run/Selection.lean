import SourceLoom.Run.Host

/-!
# The files of a run

The files that a run weaves are found in one of two ways: by following the imports of some
entries, or by scanning a directory and choosing by patterns. A file that an earlier run wrote is
left out of a scan.
-/

namespace SourceLoom.Run

variable {m : Type → Type} [Monad m]

/-- A number of things. -/
def counted (count : Nat) (thing : String) : Text :=
  Text.ofNat count ++ ' ' :: thing.toList ++ if count = 1 then [] else ['s']

/-- The files of a run. -/
structure Selection where
  /-- The files in the order of the document. -/
  files : List Path
  /-- The directory from which they are shown. -/
  base : Path
  /-- How they were found. -/
  origin : Text
  /-- What was learnt from their imports, if they were followed. -/
  session : Option Traversal.Session

/-- The conventions of a run: the usual ones unless there is a file of settings. -/
def conventionsOf (host : Host m) (yaml : Settings.YamlReader) (options : Options) :
    ExceptT Interruption m Conventions :=
  match options.settings with
  | none | some [] => pure {}
  | some file => do
    match ← ExceptT.lift (Settings.load host.files yaml (.ofText file)) with
    | .ok conventions => return conventions
    | .error (.refused refusal) => host.fail options ("Error: ".toList ++ refusal.message)
    | .error (.broken cause) => throw (.broken (.settings cause))

/-- What imports are followed in. -/
def Host.traversal (host : Host m) (options : Options) : Traversal.Surroundings m where
  cwd := host.cwd
  holds := host.files.holds
  isFile := host.files.isFile
  readText := host.files.readText
  tell event := host.sayAll options (Notice.ofTraversal event)

/-- The files that the imports of some entries lead to. -/
def followed (host : Host m) (options : Options) (conventions : Conventions)
    (entries : List Text) : ExceptT Interruption m Selection := do
  let starts := entries.map fun entry => (Path.ofText entry).absolute host.cwd
  host.say options (.progress ("Following imports from ".toList ++
    counted starts.length "entry file" ++ "...".toList))
  if .depth ∈ options.valueless then throw (.broken .noDepth)
  let plan : Traversal.Plan := { maxDepth := options.depth, conventions }
  let (answer, session) ← ExceptT.lift <|
    Traversal.followAll (host.traversal options) plan (starts.map Path.toText) {}
  match answer with
  | .error (.files fault) => throw (.broken (.files fault))
  | .error (.misuse cause) => throw (.broken (.misuse cause))
  | .ok [] =>
    host.fail options "Error: No valid entry files found or no files to process".toList
  | .ok files =>
    return {
      files
      base := Scan.commonBase host.cwd (starts ++ files)
      origin := "imports chain from ".toList ++ counted starts.length "entry file"
      session := some session }

/-- The path of the file that is written. -/
def outputPath (host : Host m) (options : Options) : ExceptT Interruption m Path :=
  if .output ∈ options.valueless then throw (.broken .noPath)
  else pure ((Path.ofText options.output).absolute host.cwd)

/-- The files that a scan finds. -/
def scanned (host : Host m) (options : Options) : ExceptT Interruption m Selection := do
  if .directory ∈ options.valueless then throw (.broken .noPath)
  let base := (Path.ofText options.directory).absolute host.cwd
  if !(← need (host.files.isDirectory base)) then
    host.fail options ("Error: '".toList ++ options.directory ++ "' is not a directory".toList)
  host.say options (.progress "Scanning directory...".toList)
  let found ← need (Scan.filesIn host.files host.cwd Scan.defaultExcluded base)
  match Scan.filter host.cwd base options.pattern options.ignored found with
  | .error bad =>
    if bad.isMalformed then
      host.fail options ("Error: Invalid regex pattern: ".toList ++ bad.message)
    else throw (.broken (.pattern bad))
  | .ok files =>
    let output ← outputPath host options
    return {
      files := files.filter (· ≠ output)
      base
      origin := "directory scan".toList
      session := none }

/-- The files of a run. There is always one at least. -/
def select (host : Host m) (options : Options) (conventions : Conventions) :
    ExceptT Interruption m Selection := do
  let selection ← match options.entries with
    | none | some [] => scanned host options
    | some entries => followed host options conventions entries
  if selection.files = [] then
    host.fail options "Error: No files found matching the specified patterns".toList
  return selection

end SourceLoom.Run
