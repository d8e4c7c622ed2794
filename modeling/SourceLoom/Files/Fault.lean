import SourceLoom.Path
import SourceLoom.Text.Numeral
import SourceLoom.Text.Quoted

/-!
# Faults of file operations

Every operation on files can fail, for one of a few causes, and then says at which path. The
message carries the number of the cause and the path in quoted form. Writing can also stop short of
its end, after the file was opened; then no path is told.
-/

namespace SourceLoom.Files

/-- Why an operation at a path failed. -/
inductive Cause where
  /-- Nothing is there. -/
  | notFound
  /-- The permissions forbid it. -/
  | denied
  /-- Something on the way, or at its end, would have to be a directory. -/
  | notADirectory
  /-- A directory is where a file is needed. -/
  | isADirectory
  /-- A name or the whole path is too long. -/
  | nameTooLong
  /-- Following symbolic links does not come to an end. -/
  | tooManyLinks
  deriving DecidableEq, Repr

/-- The number of a cause. -/
def Cause.number : Cause → Nat
  | notFound => 2
  | denied => 13
  | notADirectory => 20
  | isADirectory => 21
  | nameTooLong => 36
  | tooManyLinks => 40

/-- The causes. -/
def Cause.all : List Cause :=
  [notFound, denied, notADirectory, isADirectory, nameTooLong, tooManyLinks]

/-- The cause with a number. -/
def Cause.ofNumber? (number : Nat) : Option Cause :=
  Cause.all.find? fun cause => cause.number = number

/-- The words for a cause. -/
def Cause.words : Cause → Text
  | notFound => "No such file or directory".toList
  | denied => "Permission denied".toList
  | notADirectory => "Not a directory".toList
  | isADirectory => "Is a directory".toList
  | nameTooLong => "File name too long".toList
  | tooManyLinks => "Too many levels of symbolic links".toList

/-- What went wrong in a file operation. -/
inductive Fault where
  /-- The operation failed at a path. -/
  | failed (cause : Cause) (path : Path)
  /-- The path holds the null character, which no file name can. -/
  | nullInPath
  deriving DecidableEq, Repr

/-- The message of a fault. -/
def Fault.message : Fault → Text
  | failed cause path =>
    "[Errno ".toList ++ Text.ofNat cause.number ++ "] ".toList ++ cause.words ++ ": ".toList ++
      path.toText.quoted
  | nullInPath => "embedded null byte".toList

/-- Why writing to a file fails after it was opened. -/
inductive Shortage where
  /-- The disk does not work. -/
  | disk
  /-- A file may not be so large. -/
  | size
  /-- The disk is full. -/
  | space
  /-- The owner may not fill more of the disk. -/
  | quota
  deriving DecidableEq, Repr

/-- The number of a shortage. -/
def Shortage.number : Shortage → Nat
  | disk => 5
  | size => 27
  | space => 28
  | quota => 122

/-- The words for a shortage. -/
def Shortage.words : Shortage → Text
  | disk => "Input/output error".toList
  | size => "File too large".toList
  | space => "No space left on device".toList
  | quota => "Disk quota exceeded".toList

/-- The shortages. -/
def Shortage.all : List Shortage := [disk, size, space, quota]

/-- The shortage with a number. -/
def Shortage.ofNumber? (number : Nat) : Option Shortage :=
  Shortage.all.find? fun shortage => shortage.number = number

/-- The message of a shortage. -/
def Shortage.message (shortage : Shortage) : Text :=
  "[Errno ".toList ++ Text.ofNat shortage.number ++ "] ".toList ++ shortage.words

/-- The outcome of an operation as an answer of its own. -/
def attempt {m : Type → Type} [Monad m] {ε α : Type} (operation : ExceptT Fault m α) :
    ExceptT ε m (Except Fault α) :=
  ExceptT.lift operation.run

end SourceLoom.Files
