import SourceLoom.Traversal
import SourceLoom.Proofs.Path.Normal
import SourceLoom.Proofs.Traversal.BreadthFirst

/-!
# Worlds around a session

A world answers every question of a session as it likes, in view of all that was asked and told
before. So files may appear, vanish or become unreadable between any two questions, and whenever
the session tells something. A disk is a world that never changes: its answers are the same at any
time, and it has finitely many regular files.
-/

namespace SourceLoom.Traversal

open Reference BreadthFirst

/-- What passes between a session and its surroundings. -/
inductive Exchange where
  /-- Whether a path leads to anything was asked and answered. -/
  | holds (path : Path) (answer : Except Files.Fault Bool)
  /-- Whether a path leads to a regular file was asked and answered. -/
  | isFile (path : Path) (answer : Except Files.Fault Bool)
  /-- A file was read, or could not be. -/
  | readText (path : Path) (answer : Except Files.Fault Text)
  /-- The session told something. -/
  | told (event : Event)

/-- All that has passed, in order. -/
abbrev History := List Exchange

/-- The file that an event reports, with its depth. -/
def Event.report? : Event → Option (Path × Nat)
  | reached file depth => some (file, depth)
  | _ => none

/-- The files that were reported in a history, each with its depth. -/
def reports (history : History) : List (Path × Nat) :=
  history.filterMap fun
    | .told event => event.report?
    | _ => none

/-- The files that a session read, or tried to read, in a history. -/
def reads (history : History) : List Path :=
  history.filterMap fun
    | .readText file _ => some file
    | _ => none

/-- A question that goes into the history with its answer. -/
def ask {α : Type} (answer : History → Except Files.Fault α)
    (exchange : Except Files.Fault α → Exchange) : ExceptT Files.Fault (StateM History) α :=
  ExceptT.mk fun history => (answer history, history ++ [exchange (answer history)])

/-- What a session may find around it: for every history an answer to each question. -/
structure World where
  /-- The working directory. -/
  cwd : Path
  /-- The working directory is given in normal form. -/
  cwd_isNormal : cwd.IsNormal
  /-- Whether a path leads to anything. -/
  holds : History → Path → Except Files.Fault Bool
  /-- Whether a path leads to a regular file. -/
  isFile : History → Path → Except Files.Fault Bool
  /-- The text of a file. -/
  readText : History → Path → Except Files.Fault Text
  /-- The number of regular files that the session reckons with. -/
  fileCount : Nat

/-- A world as the surroundings of a session. -/
def World.surroundings (world : World) : Surroundings (StateM History) where
  cwd := world.cwd
  holds path := ask (world.holds · path) (.holds path)
  isFile path := ask (world.isFile · path) (.isFile path)
  readText path := ask (world.readText · path) (.readText path)
  tell event := modify (· ++ [.told event])
  fileCount := world.fileCount

/-- A session works in the working directory of its world. -/
@[simp] theorem World.surroundings_cwd (world : World) : world.surroundings.cwd = world.cwd := rfl

/-- A session reckons with the number of files of its world. -/
@[simp] theorem World.surroundings_fileCount (world : World) :
    world.surroundings.fileCount = world.fileCount := rfl

/-- A file system that does not change. -/
structure Disk where
  /-- The working directory. -/
  cwd : Path
  /-- The working directory is given in normal form. -/
  cwd_isNormal : cwd.IsNormal
  /-- Whether a path leads to anything. -/
  holds : Path → Except Files.Fault Bool
  /-- Whether a path leads to a regular file. -/
  isFile : Path → Except Files.Fault Bool
  /-- The text of a file. -/
  readText : Path → Except Files.Fault Text
  /-- A path that leads to a regular file leads to something. -/
  holds_of_isFile : ∀ path, isFile path = .ok true → holds path = .ok true
  /-- Finitely many paths. -/
  files : Finset Path
  /-- The normal paths of all regular files are among them. -/
  mem_files : ∀ path, path.IsNormal → isFile path = .ok true → path ∈ files
  /-- The number of regular files that the session reckons with. -/
  fileCount : Nat
  /-- There are not more. -/
  card_files_le : files.card ≤ fileCount

namespace Disk

variable (disk : Disk) (conventions : Conventions) (root : Option Path)

/-- A disk as a world. -/
def world : World where
  cwd := disk.cwd
  cwd_isNormal := disk.cwd_isNormal
  holds _ := disk.holds
  isFile _ := disk.isFile
  readText _ := disk.readText
  fileCount := disk.fileCount

/-- A disk as the surroundings of a session. -/
def surroundings : Surroundings (StateM History) := disk.world.surroundings

/-- The file that an entry names. -/
def place (entry : Text) : Path := (Path.ofText entry).absolute disk.cwd

/-- The root of the project of a file. -/
def rootOf (file : Path) : Except Files.Fault (Option Path) :=
  Id.run (findRoot conventions (fun path => ExceptT.mk (m := Id) (disk.holds path)) disk.cwd
    file).run

/-- The file that a reference in a file leads to. -/
def resolved (file : Path) (reference : Text) : Except Trouble (Option Path) :=
  Id.run (resolve conventions (fun path => ExceptT.mk (m := Id) (disk.isFile path)) disk.cwd
    reference file.toText root).run

/-- One file imports another: a local reference in its text leads there. -/
def Imports (file target : Path) : Prop :=
  ∃ text, disk.readText file = .ok text ∧ ∃ reference ∈ extract text,
    isLocal conventions reference = true ∧
      disk.resolved conventions root file reference = .ok (some target)

/-- The file that a reference in a file imports, if there is one. -/
def target? (file : Path) (reference : Text) : Option Path :=
  if isLocal conventions reference then
    match disk.resolved conventions root file reference with
    | .ok target => target
    | .error _ => none
  else none

/-- The files that a file imports, in the order of its references. -/
def imports (file : Path) : List Path :=
  match disk.readText file with
  | .error _ => []
  | .ok text => (extract text).filterMap (disk.target? conventions root file)

variable {disk conventions root}

/-- What a reference imports. -/
theorem target?_eq_some_iff {file target : Path} {reference : Text} :
    disk.target? conventions root file reference = some target ↔
      isLocal conventions reference = true ∧
        disk.resolved conventions root file reference = .ok (some target) := by
  unfold target?
  constructor
  · intro h
    split at h
    · rename_i hlocal
      refine ⟨hlocal, ?_⟩
      cases hr : disk.resolved conventions root file reference with
      | error trouble =>
        rw [hr] at h
        cases h
      | ok found =>
        rw [hr] at h
        exact congrArg Except.ok h
    · cases h
  · rintro ⟨hlocal, h⟩
    rw [if_pos hlocal, h]

/-- The list of imports is that of the imported files. -/
theorem mem_imports {file target : Path} :
    target ∈ disk.imports conventions root file ↔ disk.Imports conventions root file target := by
  unfold imports Imports
  cases disk.readText file with
  | error fault =>
    constructor
    · intro h
      exact absurd h List.not_mem_nil
    · rintro ⟨text, ⟨⟩, -⟩
  | ok text => simp only [List.mem_filterMap, Except.ok.injEq, exists_eq_left', target?_eq_some_iff]

end Disk

end SourceLoom.Traversal
