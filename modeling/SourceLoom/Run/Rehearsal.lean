import SourceLoom.Run

/-!
# Rehearsals

A run on a file tree that is a value: it shows what the run would say and which tree it would
leave behind, and changes nothing else.
-/

namespace SourceLoom.Run

/-- A file tree on which a run works, and what the run has said. -/
structure Rehearsal where
  /-- The file tree. -/
  tree : Files.Tree
  /-- The lines that were said. -/
  lines : List Text := []
  deriving Repr

namespace Rehearsal

/-- An operation on the file tree of a rehearsal. -/
def onTree {α : Type} (operation : StateM Files.Tree α) : StateM Rehearsal α := fun rehearsal =>
  let (answer, tree) := operation.run rehearsal.tree
  (answer, { rehearsal with tree })

/-- The host of a rehearsal. -/
def host (cwd : Path) : Host (StateM Rehearsal) where
  cwd := cwd
  files := Files.Tree.system.lift onTree
  putLine line := modify fun rehearsal => { rehearsal with lines := rehearsal.lines ++ [line] }

end Rehearsal

/-- How a run on a file tree ends, and what it leaves behind. -/
def rehearse (yaml : Settings.YamlReader) (tree : Files.Tree) (options : Options) :
    Except Interruption Unit × Rehearsal :=
  (perform (Rehearsal.host tree.cwd) yaml options).run.run { tree }

end SourceLoom.Run
