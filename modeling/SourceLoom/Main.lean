import SourceLoom.Run
import SourceLoom.Yaml

/-!
# The command line

The program itself: a run on the disk, with its notices on the error stream. A fault that a run
has no answer for is shown as it is, with exit code one.
-/

namespace SourceLoom

/-- The number of an error of the system, which may come negated in a word. -/
def systemNumber (code : UInt32) : Nat :=
  if code.toNat < Nat.pow 2 31 then code.toNat else Nat.pow 2 32 - code.toNat

/-- The cause that an error of the system stands for. -/
def causeOf? : IO.Error → Option Files.Cause
  | .noFileOrDirectory _ code _ | .permissionDenied _ code _ | .invalidArgument _ code _
  | .inappropriateType _ code _ => Files.Cause.ofNumber? (systemNumber code)
  | _ => none

/-- The shortage that an error of the system stands for. -/
def shortageOf? : IO.Error → Option Files.Shortage
  | .resourceExhausted _ code _ | .hardwareFault code _ | .otherError code _ =>
    Files.Shortage.ofNumber? (systemNumber code)
  | _ => none

/-- An operation of the system at a path, for which the system wants a text. -/
def atPath {α : Type} (path : Path) (operation : String → IO α) : ExceptT Files.Fault IO α :=
  ExceptT.mk do
    if '\x00' ∈ path.toText then return .error .nullInPath
    try return .ok (← operation (String.ofList path.toText))
    catch error =>
      match causeOf? error with
      | some cause => return .error (.failed cause path)
      | none => throw error

/-- Whether what is at a path has a property. Where nothing can be, it has none. -/
def examine (path : Path) (property : String → IO Bool) : ExceptT Files.Fault IO Bool :=
  ExceptT.mk do
    match ← (atPath path property).run with
    | .ok answer => return .ok answer
    | .error .nullInPath => return .ok false
    | .error (.failed .notFound _) | .error (.failed .notADirectory _)
    | .error (.failed .tooManyLinks _) => return .ok false
    | .error fault => return .error fault

/-- The directory entry that a text leads to. -/
def entryAt (text : String) : IO.FS.DirEntry := ⟨text, ""⟩

/-- The disk. -/
def disk : Files.System IO where
  holds path := examine path fun text => do
    let _ ← (entryAt text).root.metadata
    return true
  isFile path := examine path fun text => do
    return (← (entryAt text).root.metadata).type == .file
  isDirectory path := examine path fun text => do
    return (← (entryAt text).root.metadata).type == .dir
  isLink path := examine path fun text => do
    return (← (entryAt text).root.symlinkMetadata).type == .symlink
  list path := atPath path fun text => do
    return (← (entryAt text).root.readDir).toList.map (·.fileName.toList)
  read path := atPath path fun text => do
    return (← IO.FS.readBinFile text).toList
  write path bytes := atPath path fun text => do
    try
      IO.FS.writeBinFile text ⟨bytes.toArray⟩
      return none
    catch error =>
      match shortageOf? error with
      | some shortage => return some shortage
      | none => throw error

/-- A run on the disk; the answer is its exit code. -/
def runOnDisk (options : Options) : IO UInt32 := do
  let cwd ← IO.currentDir
  let host : Run.Host IO := {
    cwd := .ofText cwd.toString.toList
    files := disk
    putLine line := IO.eprintln (String.ofList line) }
  let ending ← (Run.perform host Yaml.read options).run
  match ending with
  | .error (.broken breakdown) => IO.eprintln (String.ofList breakdown.message)
  | _ => pure ()
  return ((Run.exitCode? ending).getD 1).toUInt32

end SourceLoom

/-- Reads the command line, and does what it asks for. -/
def main (arguments : List String) : IO UInt32 := do
  match SourceLoom.Options.read (arguments.map String.toList) with
  | .ok options => SourceLoom.runOnDisk options
  | .error stop =>
    IO.print (String.ofList stop.shown)
    IO.eprint (String.ofList stop.complaint)
    return stop.exitCode.toUInt32
