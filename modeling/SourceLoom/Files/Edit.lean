import SourceLoom.Files.Lookup

/-!
# Changing a file tree

Changes made to a file tree from outside: an entry is made at a path, with the directories it
needs, an entry is removed, and the permissions of an entry are set. Permissions never stand in
the way of such a change, and symbolic links on the way to an entry are followed.
-/

namespace SourceLoom.Files

/-- An entry to be made. -/
inductive Entry where
  /-- A regular file with these bytes. -/
  | file (bytes : List UInt8)
  /-- A directory. -/
  | directory
  /-- A symbolic link to a path. -/
  | link (target : Text)
  deriving DecidableEq, Repr

namespace Tree

/-- The place that names lead to from a place. `onLink` continues at the target of a link, with
what remains of the path after it. Names that nothing has yet are kept as they are. -/
def placeOfNames (tree : Tree) (followLast : Bool)
    (onLink : (place names : List Name) → List Name) : (place names : List Name) → List Name
  | place, [] => place
  | place, name :: names =>
    if name = Path.dotDot then placeOfNames tree followLast onLink place.dropLast names
    else match tree.root.get? (place ++ [name]) with
      | some (.link text) =>
        if names = [] ∧ !followLast then place ++ [name]
        else
          let target := Path.ofText text
          onLink (if target.isAbsolute then [] else place) (target.names ++ names)
      | _ => placeOfNames tree followLast onLink (place ++ [name]) names

/-- The place that names lead to from a place through at most so many links. -/
def placeFrom (tree : Tree) (followLast : Bool) : (links : Nat) → (place names : List Name) →
    List Name
  | 0 => placeOfNames tree followLast fun place names => place ++ names
  | links + 1 => placeOfNames tree followLast (placeFrom tree followLast links)

/-- The place of a path. -/
def placeOf (tree : Tree) (followLast : Bool) (path : Path) : List Name :=
  placeFrom tree followLast linkLimit [] (tree.cwd.append path).names

/-- The tree with an entry at a path. A file that is there already takes the new bytes, and a
directory that is there stays as it is. -/
def make (tree : Tree) (path : Path) (entry : Entry) : Tree :=
  let place := tree.placeOf (entry matches .file _) path
  match entry, tree.root.get? place with
  | .file bytes, some (.file permissions _) => tree.setFile place permissions bytes
  | .file bytes, _ => tree.setFile place .ofFile bytes
  | .directory, some (.directory _ _) => tree
  | .directory, _ => { tree with root := tree.root.set place .empty }
  | .link target, _ => { tree with root := tree.root.set place (.link target) }

/-- The tree without the entry at a path and all that is in it. What was removed is no name of a
file any more. -/
def remove (tree : Tree) (path : Path) : Tree :=
  let place := tree.placeOf false path
  { tree with
    root := tree.root.erase place
    records := tree.records.map fun record =>
      { record with names := record.names.filter fun name => !place.isPrefixOf name } }

/-- The tree in which the owner may do other things with the entry at a path. -/
def permit (tree : Tree) (path : Path) (permissions : Permissions) : Tree :=
  let place := tree.placeOf true path
  match tree.root.get? place with
  | some (.file _ bytes) => tree.setFile place permissions bytes
  | some node => { tree with root := tree.root.set place (node.withPermissions permissions) }
  | none => tree

/-- A tree without any entry. -/
def empty (cwd : Path) : Tree := { root := .empty, cwd }

end Tree

end SourceLoom.Files
