import SourceLoom.Conventions
import SourceLoom.Files.System

/-!
# From references to files

A local reference leads to the first regular file among its candidates: the place it names, that
place with each ending that may be left out, and the index file of that place with each ending.
An alias is seen from the root of the project, every other reference from the directory of the
file that holds it.
-/

namespace SourceLoom.Reference

variable {m : Type → Type} [Monad m]

/-- A use of the resolution that makes no sense. -/
inductive Misuse where
  /-- No file holds the reference. -/
  | noFile
  /-- There is no reference. -/
  | noReference
  deriving DecidableEq, Repr

/-- The message for a misuse. -/
def Misuse.message : Misuse → Text
  | noFile => "Referencing file path is required to resolve a reference".toList
  | noReference => "Reference is required to resolve a reference".toList

/-- Why a resolution failed. -/
inductive Trouble where
  /-- It was misused. -/
  | misuse (cause : Misuse)
  /-- A file could not be examined. -/
  | files (fault : Files.Fault)
  deriving DecidableEq, Repr

/-- The first path that passes a test; a fault of the test ends the search. -/
def firstWhere (test : Path → ExceptT Files.Fault m Bool) :
    List Path → ExceptT Files.Fault m (Option Path)
  | [] => pure none
  | path :: paths => do
    if ← test path then return some path
    firstWhere test paths

/-- The directories that may be the root of the project of a file, nearest first. -/
def rootsOf (conventions : Conventions) (cwd file : Path) : List Path :=
  (file.absolute cwd).parent.upward.take conventions.searchLevels.toNat

/-- The root of the project of a file: the nearest directory above it that holds the marker. -/
def findRoot (conventions : Conventions) (holds : Path → ExceptT Files.Fault m Bool)
    (cwd file : Path) : ExceptT Files.Fault m (Option Path) :=
  firstWhere (fun directory => holds (directory.child conventions.markerFile))
    (rootsOf conventions cwd file)

/-- The place that a reference in a file names. An alias without a root names none. -/
def place? (conventions : Conventions) (cwd file : Path) (root : Option Path) (reference : Text) :
    Option Path :=
  match Text.dropLeading? conventions.aliasMark reference with
  | some rest =>
    root.map fun root => ((root.child conventions.aliasFolder).child rest).collapse
  | none => some (((file.absolute cwd).parent.child reference).collapse)

/-- The paths where the file for a place may be, in the order in which they are tried. -/
def candidates (conventions : Conventions) (cwd place : Path) : List Path :=
  let withEnding (ending : Text) : Path := .ofText (place.toText ++ ending)
  let index (ending : Text) : Path := place.child ("index".toList ++ ending)
  place.absolute cwd ::
    conventions.extensions.map (fun ending => (withEnding ending).absolute cwd) ++
    conventions.extensions.map fun ending => (index ending).absolute cwd

/-- The file that a reference leads to. -/
def resolve (conventions : Conventions) (isFile : Path → ExceptT Files.Fault m Bool) (cwd : Path)
    (reference file : Text) (root : Option Path) : ExceptT Trouble m (Option Path) := do
  if file = [] then throw (.misuse .noFile)
  if reference = [] then throw (.misuse .noReference)
  match place? conventions cwd (.ofText file) root reference with
  | none => return none
  | some place => (firstWhere isFile (candidates conventions cwd place)).adapt Trouble.files

end SourceLoom.Reference
