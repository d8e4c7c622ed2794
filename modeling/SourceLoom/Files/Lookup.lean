import SourceLoom.Files.Tree
import SourceLoom.Text.Utf8

/-!
# Looking paths up in a file tree

A path is followed name by name, from the root directory if it is absolute and else from the working
directory. Each name is looked for in a directory that must allow its entries to be reached; a
double dot leads up; a symbolic link is replaced by the pieces of its target, at the end of the path
only where the operation follows links. The answers of the questions `exists`, `isFile`,
`isDirectory` and `isLink` are `false` where nothing is found, and a fault only where looking itself
is refused.
-/

namespace SourceLoom.Files

/-- The most bytes a name may have. -/
def nameLimit : Nat := 255

/-- A path with so many bytes is too long. -/
def pathLimit : Nat := 4096

/-- The most symbolic links that are followed for one path. -/
def linkLimit : Nat := 40

/-- What a path leads to. -/
inductive Target where
  /-- A node at a place. -/
  | found (place : List Name) (node : Node)
  /-- Nothing yet, in an existing directory. -/
  | absent (parent : List Name) (name : Name)

/-- The place that a path leads to, or at which it would make something. -/
def Target.spot : Target → List Name
  | .found place _ => place
  | .absent parent name => parent ++ [name]

namespace Tree

/-- Follows names from a place. `onLink` continues at the target of a link, with what remains of
the path after it; a link at the very end is followed only if `followLast` says so. The pieces of a
target that are no names stay in a directory, which must allow its entries to be reached if the
piece is a dot. -/
def walkNames (tree : Tree) (followLast : Bool)
    (onLink : (place names : List Name) → Except Cause Target) :
    (place names : List Name) → Except Cause Target
  | place, [] =>
    match tree.root.get? place with
    | some node => .ok (.found place node)
    | none => .error .notFound
  | place, name :: names =>
    match tree.root.get? place with
    | none => .error .notFound
    | some (.directory permissions entries) =>
      if name = [] then walkNames tree followLast onLink place names
      else if !permissions.reach then .error .denied
      else if nameLimit < Utf8.size name then .error .nameTooLong
      else if name = Path.dot then walkNames tree followLast onLink place names
      else if name = Path.dotDot then walkNames tree followLast onLink place.dropLast names
      else match entries.lookup name with
        | none => if names = [] then .ok (.absent place name) else .error .notFound
        | some (.link text) =>
          if names = [] ∧ !followLast then .ok (.found (place ++ [name]) (.link text))
          else
            onLink (if (Path.ofText text).isAbsolute then [] else place)
              (Text.splitOn '/' text ++ names)
        | some _ => walkNames tree followLast onLink (place ++ [name]) names
    | some _ => .error .notADirectory

/-- Follows names from a place through at most so many links. -/
def walk (tree : Tree) (followLast : Bool) : (links : Nat) → (place names : List Name) →
    Except Cause Target
  | 0 => walkNames tree followLast fun _ _ => .error .tooManyLinks
  | links + 1 => walkNames tree followLast (walk tree followLast links)

/-- Where the names of a path are followed from: the root directory, or the working directory if it
is there. -/
def start? (tree : Tree) (path : Path) : Option (List Name) :=
  if path.isAbsolute then some []
  else if (tree.root.get? tree.cwd.names).any Node.isDirectory then some tree.cwd.names
  else none

/-- What a path leads to. -/
def locate (tree : Tree) (followLast : Bool) (path : Path) : Except Fault Target :=
  if '\x00' ∈ path.toText then .error .nullInPath
  else if pathLimit ≤ Utf8.size path.toText then .error (.failed .nameTooLong path)
  else
    match tree.start? path with
    | none => .error (.failed .notFound path)
    | some start =>
      match walk tree followLast linkLimit start path.names with
      | .ok target => .ok target
      | .error cause => .error (.failed cause path)

/-- The node a path leads to. -/
def node (tree : Tree) (followLast : Bool) (path : Path) : Except Fault Node := do
  match ← tree.locate followLast path with
  | .found _ node => return node
  | .absent _ _ => throw (.failed .notFound path)

/-- Whether a path leads to a node with a property. -/
def leadsTo (tree : Tree) (followLast : Bool) (property : Node → Bool) (path : Path) :
    Except Fault Bool :=
  match tree.node followLast path with
  | .ok node => .ok (property node)
  | .error .nullInPath => .ok false
  | .error (.failed cause path) =>
    if cause ∈ [.notFound, .notADirectory, .tooManyLinks] then .ok false
    else .error (.failed cause path)

/-- Whether a path leads to anything. -/
def holds (tree : Tree) (path : Path) : Except Fault Bool :=
  tree.leadsTo true (fun _ => true) path

/-- Whether a path leads to a regular file. -/
def isFile (tree : Tree) (path : Path) : Except Fault Bool := tree.leadsTo true Node.isFile path

/-- Whether a path leads to a directory. -/
def isDirectory (tree : Tree) (path : Path) : Except Fault Bool :=
  tree.leadsTo true Node.isDirectory path

/-- Whether a path is itself a symbolic link. -/
def isLink (tree : Tree) (path : Path) : Except Fault Bool := tree.leadsTo false Node.isLink path

/-- The names in a directory. -/
def list (tree : Tree) (path : Path) : Except Fault (List Name) := do
  match ← tree.node true path with
  | .directory permissions entries =>
    if permissions.read then return entries.map (·.1) else throw (.failed .denied path)
  | _ => throw (.failed .notADirectory path)

/-- The bytes of a file. -/
def read (tree : Tree) (path : Path) : Except Fault (List UInt8) := do
  match ← tree.node true path with
  | .file permissions bytes =>
    if permissions.read then return bytes else throw (.failed .denied path)
  | .directory permissions _ =>
    throw (.failed (if permissions.read then .isADirectory else .denied) path)
  | .device permissions => if permissions.read then return [] else throw (.failed .denied path)
  | .link _ => throw (.failed .notFound path)

/-- The tree in which a path leads to a file with these bytes. A file that exists keeps its
permissions and its other names; a new one appears in its directory, also at the end of a link. A
special file keeps nothing. -/
def write (tree : Tree) (path : Path) (bytes : List UInt8) : Except Fault Tree := do
  match ← tree.locate true path with
  | .found place (.file permissions _) =>
    if permissions.write then return tree.setFile place permissions bytes
    else throw (.failed .denied path)
  | .found _ (.device permissions) =>
    if permissions.write then return tree else throw (.failed .denied path)
  | .found _ _ => throw (.failed .isADirectory path)
  | .absent parent name =>
    match tree.root.get? parent with
    | some (.directory permissions _) =>
      if permissions.write then return tree.setFile (parent ++ [name]) .ofFile bytes
      else throw (.failed .denied path)
    | _ => throw (.failed .notFound path)

/-- The tree in which a path leads to a file with as many of these bytes as it keeps, and why
writing them fails, if it does. -/
def store (tree : Tree) (path : Path) (bytes : List UInt8) :
    Except Fault (Tree × Option Shortage) := do
  let target ← tree.locate true path
  let (kept, shortage) := tree.fit target.spot bytes
  return (← tree.write path kept, shortage)

end Tree

end SourceLoom.Files
