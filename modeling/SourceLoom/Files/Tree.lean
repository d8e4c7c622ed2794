import SourceLoom.Files.Fault

/-!
# File trees

A whole file system as one value: directories with named entries, regular files with their bytes,
symbolic links and special files. A place in the tree is the list of names that leads to it from the
root through entries alone, without links and without double dots. A file may be at several places,
and writing to it may fail on the way; both are recorded beside the entries.
-/

namespace SourceLoom.Files

/-- What the owner of an entry may do with it. -/
structure Permissions where
  /-- Read the file, or list the directory. -/
  read : Bool
  /-- Change the file, or the set of entries of the directory. -/
  write : Bool
  /-- Reach the entries of the directory. -/
  reach : Bool
  deriving DecidableEq, Repr

namespace Permissions

/-- What a new file allows. -/
def ofFile : Permissions := ⟨true, true, false⟩

/-- What a new directory allows. -/
def ofDirectory : Permissions := ⟨true, true, true⟩

/-- The permissions in an octal digit: four to read, two to write, one to reach. -/
def ofDigit (digit : Nat) : Permissions :=
  ⟨digit / 4 % 2 = 1, digit / 2 % 2 = 1, digit % 2 = 1⟩

end Permissions

/-- An entry of a file system with all that is in it. -/
inductive Node where
  /-- A regular file. -/
  | file (permissions : Permissions) (bytes : List UInt8)
  /-- A directory with its entries. -/
  | directory (permissions : Permissions) (entries : List (Name × Node))
  /-- A symbolic link to a path. -/
  | link (target : Text)
  /-- A special file: it keeps nothing of what is written to it, and there is nothing to read. -/
  | device (permissions : Permissions)
  deriving Repr, Inhabited

namespace Node

/-- A directory without entries. -/
def empty : Node := .directory .ofDirectory []

/-- The entry of a directory under a name. -/
def entry? : Node → Name → Option Node
  | .directory _ entries, name => entries.lookup name
  | _, _ => none

/-- The node at a place below this one. -/
def get? (node : Node) : List Name → Option Node
  | [] => some node
  | name :: names => (node.entry? name).bind fun inner => inner.get? names

/-- A list of entries in which a name leads to a given node; a new name comes last. -/
def put (name : Name) (node : Node) : List (Name × Node) → List (Name × Node)
  | [] => [(name, node)]
  | (other, old) :: entries =>
    if other = name then (name, node) :: entries else (other, old) :: put name node entries

/-- The tree with a node at a place; directories on the way are made where nothing is. -/
def set (node : Node) : List Name → Node → Node
  | [], new => new
  | name :: names, new =>
    match node with
    | .directory permissions entries =>
      .directory permissions
        (put name (((entries.lookup name).getD empty).set names new) entries)
    | other => other

/-- The tree without what is at a place. -/
def erase (node : Node) : List Name → Node
  | [] => node
  | [name] =>
    match node with
    | .directory permissions entries =>
      .directory permissions (entries.filter fun entry => entry.1 ≠ name)
    | other => other
  | name :: names =>
    match node with
    | .directory permissions entries =>
      .directory permissions <| entries.map fun (other, inner) =>
        if other = name then (other, inner.erase names) else (other, inner)
    | other => other

/-- The entry with other permissions; a link has none of its own. -/
def withPermissions (permissions : Permissions) : Node → Node
  | .file _ bytes => .file permissions bytes
  | .directory _ entries => .directory permissions entries
  | .link target => .link target
  | .device _ => .device permissions

/-- Whether this is a regular file. -/
def isFile : Node → Bool
  | .file _ _ => true
  | _ => false

/-- Whether this is a directory. -/
def isDirectory : Node → Bool
  | .directory _ _ => true
  | _ => false

/-- Whether this is a symbolic link. -/
def isLink : Node → Bool
  | .link _ => true
  | _ => false

end Node

/-- What is known of a file besides its entries. -/
structure Record where
  /-- The places of its entries, each of which is a name of the file. -/
  names : List (List Name)
  /-- After how many bytes writing to it fails, and why, if it does. -/
  stop : Option (Nat × Shortage) := none
  deriving DecidableEq, Repr

/-- A file system: the root directory, and the working directory of whoever uses it. -/
structure Tree where
  /-- The root directory. -/
  root : Node
  /-- The absolute path of the working directory. -/
  cwd : Path
  /-- What is known of some files. Every other file has one name and keeps all that is written. -/
  records : List Record := []
  deriving Repr

/-- What is known of the file at a place. -/
def Tree.record (tree : Tree) (place : List Name) : Record :=
  (tree.records.find? fun record => place ∈ record.names).getD { names := [place] }

/-- The places at which a file changes that is written at a place: there, and at its other names. -/
def Tree.placesOf (tree : Tree) (place : List Name) : List (List Name) :=
  place :: (tree.record place).names.filter fun other =>
    other ≠ place ∧ (tree.root.get? other).any Node.isFile

/-- The tree with a file at a place and at its other names. -/
def Tree.setFile (tree : Tree) (place : List Name) (permissions : Permissions)
    (bytes : List UInt8) : Tree :=
  { tree with
    root := (tree.placesOf place).foldl
      (fun root name => root.set name (.file permissions bytes)) tree.root }

/-- As many of some bytes as the file at a place keeps, and why writing them fails, if it does. It
may fail although all of them are there, when the file is closed. -/
def Tree.fit (tree : Tree) (place : List Name) (bytes : List UInt8) :
    List UInt8 × Option Shortage :=
  match (tree.record place).stop with
  | none => (bytes, none)
  | some (count, shortage) => (bytes.take count, some shortage)

end SourceLoom.Files
