import SourceLoom.Run.Notice
import SourceLoom.Scan
import SourceLoom.Settings.File

/-!
# Hosts

What a run works with: a working directory, a file system and a stream for its notices. A run that
is interrupted has either said why, or has met something it has no answer for.
-/

namespace SourceLoom.Run

/-- What a run works with. -/
structure Host (m : Type → Type) where
  /-- The working directory. -/
  cwd : Path
  /-- The file system. -/
  files : Files.System m
  /-- Puts a line on the stream of notices. -/
  putLine : Text → m Unit

/-- What a run has no answer for. -/
inductive Breakdown where
  /-- A file operation failed where it must not. -/
  | files (fault : Files.Fault)
  /-- A file could not be woven. -/
  | document (fault : Document.Fault)
  /-- The settings could not be read. -/
  | settings (cause : Settings.Breakdown)
  /-- A text is no pattern, for a reason that is no matter of its form. -/
  | pattern (bad : Scan.BadPattern)
  /-- A reference was misused. -/
  | misuse (cause : Reference.Misuse)
  /-- A path that the run needs was not given. -/
  | noPath
  /-- The bound on depths was not given. -/
  | noDepth
  deriving DecidableEq, Repr

/-- The message of a breakdown. -/
def Breakdown.message : Breakdown → Text
  | files fault => fault.message
  | document fault => fault.message
  | settings cause => cause.message
  | pattern bad => bad.message
  | misuse cause => cause.message
  | noPath => "expected str, bytes or os.PathLike object, not list".toList
  | noDepth => "'<' not supported between instances of 'list' and 'int'".toList

/-- Why a run ends early. -/
inductive Interruption where
  /-- It failed and said so. -/
  | failed
  /-- It met something it has no answer for. -/
  | broken (breakdown : Breakdown)
  deriving DecidableEq, Repr

variable {m : Type → Type} [Monad m]

/-- Says something, if the options ask for it. -/
def Host.say (host : Host m) (options : Options) (notice : Notice) : m Unit :=
  if notice.isShown options then host.putLine notice.toText else pure ()

/-- Says some things, one after the other. -/
def Host.sayAll (host : Host m) (options : Options) : List Notice → m Unit
  | [] => pure ()
  | notice :: notices => do
    host.say options notice
    host.sayAll options notices

/-- Says why the run fails, and ends it. -/
def Host.fail (host : Host m) (options : Options) (message : Text) {α : Type} :
    ExceptT Interruption m α := do
  host.say options (.failure message)
  throw .failed

/-- A file operation whose fault the run has no answer for. -/
def need {α : Type} (operation : ExceptT Files.Fault m α) : ExceptT Interruption m α :=
  operation.adapt fun fault => .broken (.files fault)

end SourceLoom.Run
