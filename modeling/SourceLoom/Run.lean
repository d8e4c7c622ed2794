import SourceLoom.Run.Delivery

/-!
# Runs

A run does what a command line asks for: it finds files, weaves them into one document with a
drawing of their project, and writes the document. Its exit code is zero if it came to its end and
one if it failed and said why.
-/

namespace SourceLoom.Run

variable {m : Type → Type} [Monad m]

/-- The drawings of the project and of the files, if they were asked for. -/
def drawings (host : Host m) (options : Options) (conventions : Conventions)
    (selection : Selection) : ExceptT Interruption m (Option (Text × Text)) := do
  if !options.drawing then return none
  let (project, root) ← need <|
    Survey.draw host.files (fun event => host.say options (.ofSurvey event)) conventions
      options.style Survey.defaultDepth host.cwd selection.base
  host.say options (.note .info ("Project tree generated from ".toList ++ root.toText))
  let outline := Outline.ofFiles host.cwd selection.base selection.files
  return some (project, outline.draw options.style)

/-- How many files are woven, and how. -/
def openingWords (options : Options) (selection : Selection) : Text :=
  "Found ".toList ++ counted selection.files.length "file" ++ " to process (".toList ++
    selection.origin ++
    (match options.level with
    | some level => " (minify: ".toList ++ level.name ++ [')']
    | none => []) ++ [')']

/-- The document of a run. -/
def compose (host : Host m) (options : Options) (conventions : Conventions)
    (selection : Selection) : ExceptT Interruption m Document.Woven := do
  host.say options (.progress (openingWords options selection))
  let drawn ← drawings host options conventions selection
  let plan : Document.Plan := {
    base := selection.base
    headers := options.headers
    level := options.level
    projectDrawing := drawn.map (·.1)
    filesDrawing := drawn.map (·.2)
    prompt := options.prompt }
  let weaving := Document.weave host.files (fun event => host.say options (.ofDocument event))
    host.cwd plan selection.files
  weaving.adapt fun fault => .broken (.document fault)

/-- Does what the options ask for. -/
def perform (host : Host m) (yaml : Settings.YamlReader) (options : Options) :
    ExceptT Interruption m Unit := do
  let conventions ← conventionsOf host yaml options
  let selection ← select host options conventions
  let woven ← compose host options conventions selection
  deliver host options selection woven

/-- The exit code of a run; without an answer of its own it has none. -/
def exitCode? : Except Interruption Unit → Option Nat
  | .ok () => some 0
  | .error .failed => some 1
  | .error (.broken _) => none

end SourceLoom.Run
