import SourceLoom.Files.Lookup
import SourceLoom.Text.Blank

/-!
# File systems

What the library asks of a file system, whichever it is. The operations run in a monad, so that
one program serves a file tree held as a value, a disk, and a file system that changes between
one question and the next.
-/

namespace SourceLoom.Files

/-- The operations of a file system. -/
structure System (m : Type → Type) where
  /-- Whether a path leads to anything. -/
  holds : Path → ExceptT Fault m Bool
  /-- Whether a path leads to a regular file. -/
  isFile : Path → ExceptT Fault m Bool
  /-- Whether a path leads to a directory. -/
  isDirectory : Path → ExceptT Fault m Bool
  /-- Whether a path is itself a symbolic link. -/
  isLink : Path → ExceptT Fault m Bool
  /-- The names in a directory. -/
  list : Path → ExceptT Fault m (List Name)
  /-- The bytes of a file. -/
  read : Path → ExceptT Fault m (List UInt8)
  /-- Makes a file, or replaces what is in it. The answer is why it does not take all of the bytes
  but only the first of them. -/
  write : Path → List UInt8 → ExceptT Fault m (Option Shortage)

/-- The text of a file: a stand-in for every byte sequence that is no text, and line feeds for
all its line ends. -/
def System.readText {m : Type → Type} [Monad m] (files : System m) (path : Path) :
    ExceptT Fault m Text := do
  return Text.unifyNewlines (Utf8.decodeLossy (← files.read path))

/-- The same file system seen from another monad. -/
def System.lift {m n : Type → Type} (files : System m) (lift : {α : Type} → m α → n α) :
    System n where
  holds path := ExceptT.mk (lift (files.holds path).run)
  isFile path := ExceptT.mk (lift (files.isFile path).run)
  isDirectory path := ExceptT.mk (lift (files.isDirectory path).run)
  isLink path := ExceptT.mk (lift (files.isLink path).run)
  list path := ExceptT.mk (lift (files.list path).run)
  read path := ExceptT.mk (lift (files.read path).run)
  write path bytes := ExceptT.mk (lift (files.write path bytes).run)

/-- A file tree that only writing changes. -/
def Tree.system : System (StateM Tree) where
  holds path := do liftExcept ((← get).holds path)
  isFile path := do liftExcept ((← get).isFile path)
  isDirectory path := do liftExcept ((← get).isDirectory path)
  isLink path := do liftExcept ((← get).isLink path)
  list path := do liftExcept ((← get).list path)
  read path := do liftExcept ((← get).read path)
  write path bytes := do
    let (tree, shortage) ← liftExcept ((← get).store path bytes)
    set tree
    return shortage
where
  /-- An answer that is already known. -/
  liftExcept {α : Type} (answer : Except Fault α) : ExceptT Fault (StateM Tree) α :=
    ExceptT.mk (pure answer)

end SourceLoom.Files
