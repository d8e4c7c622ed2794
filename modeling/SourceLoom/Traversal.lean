import SourceLoom.Graph
import SourceLoom.Reference.Extraction
import SourceLoom.Reference.Locality
import SourceLoom.Reference.Resolution

/-!
# Following imports

A session follows the imports of one entry file after another, breadth first. It remembers every
file it has ever put into its queue, so that no file is read twice, and it records what it learns
in a graph. A file that cannot be examined or read is skipped with a warning and never stops the
session.

The session asks its surroundings about files one question at a time and tells them what it does.
The surroundings may answer the same question differently the next time, and they may change
whenever they are told something.
-/

namespace SourceLoom.Traversal

open Reference

/-- Why a file, an entry or a reference was skipped. -/
inductive Warning where
  /-- An entry could not be examined. -/
  | entryFault (entry : Text) (fault : Files.Fault)
  /-- Nothing is where an entry should be. -/
  | entryMissing (entry : Text)
  /-- An entry is no regular file. -/
  | entryNoFile (entry : Text)
  /-- A file from the queue could not be examined. -/
  | fileFault (file : Path) (fault : Files.Fault)
  /-- A file could not be read. -/
  | readFault (file : Path) (fault : Files.Fault)
  /-- The candidates for a reference could not be examined. -/
  | referenceFault (reference : Text) (file : Path) (fault : Files.Fault)
  deriving DecidableEq, Repr

/-- The message of a warning. -/
def Warning.message : Warning → Text
  | entryFault entry fault =>
    "Cannot access entry file ".toList ++ entry ++ ": ".toList ++ fault.message ++
      ", skipping".toList
  | entryMissing entry => "Entry file not found: ".toList ++ entry ++ ", skipping".toList
  | entryNoFile entry => entry ++ " is not a valid file, skipping".toList
  | fileFault file fault => "Cannot access ".toList ++ file.toText ++ ": ".toList ++ fault.message
  | readFault file fault => "Cannot read ".toList ++ file.toText ++ ": ".toList ++ fault.message
  | referenceFault reference file fault =>
    "Cannot resolve '".toList ++ reference ++ "' from ".toList ++ file.toText ++ ": ".toList ++
      fault.message

/-- What a session tells its surroundings. -/
inductive Event where
  /-- The root of the project of an entry was sought. -/
  | rootSought (entry : Path) (root : Option Path)
  /-- A file was added to the result. -/
  | reached (file : Path) (depth : Nat)
  /-- A local reference led to no file. -/
  | unresolved (reference : Text) (file : Path)
  /-- Something was skipped. -/
  | warned (warning : Warning)
  deriving DecidableEq, Repr

/-- So many paths there are at most: each has fewer characters than a path may have bytes. -/
def pathCount : Nat := Nat.pow 0x110000 Files.pathLimit

/-- What a session works in. -/
structure Surroundings (m : Type → Type) where
  /-- The working directory. -/
  cwd : Path
  /-- Whether a path leads to anything. -/
  holds : Path → ExceptT Files.Fault m Bool
  /-- Whether a path leads to a regular file. -/
  isFile : Path → ExceptT Files.Fault m Bool
  /-- The text of a file. -/
  readText : Path → ExceptT Files.Fault m Text
  /-- Takes note of what happens. -/
  tell : Event → m Unit
  /-- More regular files than this there never are. -/
  fileCount : Nat := pathCount

/-- What a session is to do. -/
structure Plan where
  /-- The most imports from an entry to a file; without it there is no bound. -/
  maxDepth : Option Nat := none
  /-- The conventions of the project. -/
  conventions : Conventions := {}
  deriving DecidableEq, Repr

/-- A bound on depths that is below zero. -/
structure NegativeDepth where
  /-- The bound. -/
  depth : Int
  deriving DecidableEq, Repr

/-- The message for a bound below zero. -/
def NegativeDepth.message (fault : NegativeDepth) : Text :=
  "max_depth must be a non-negative integer, got ".toList ++ Text.ofInt fault.depth

/-- A bound on depths from a number that is not below zero. -/
def depthBound : Option Int → Except NegativeDepth (Option Nat)
  | none => .ok none
  | some depth => if depth < 0 then .error ⟨depth⟩ else .ok (some depth.toNat)

/-- What a session has learnt. -/
structure Session where
  /-- The files that were ever put into the queue. -/
  visited : List Path := []
  /-- The files, their imports and their other references. -/
  graph : Graph := {}
  /-- The warnings in order. -/
  warnings : List Warning := []
  deriving DecidableEq, Repr

/-- One entry being followed. -/
structure Search where
  /-- The session it belongs to. -/
  session : Session
  /-- The files to look at, each with its depth. -/
  queue : List (Path × Nat)
  /-- The files found so far. -/
  found : List Path
  deriving DecidableEq, Repr

/-- The search with a file at the end of its queue. -/
def Search.enqueue (search : Search) (file : Path) (depth : Nat) : Search :=
  { search with
    session :=
      { search.session with
        visited := if file ∈ search.session.visited then search.session.visited
          else search.session.visited ++ [file]
        graph := search.session.graph.addNode file depth }
    queue := search.queue ++ [(file, depth)] }

variable {m : Type → Type} [Monad m]

/-- The session with one more warning, of which the surroundings are told. -/
def warn (around : Surroundings m) (warning : Warning) (session : Session) : m Session := do
  around.tell (.warned warning)
  return { session with warnings := session.warnings ++ [warning] }

/-- Accounts for the references of a file, one after the other: those that name packages and those
that lead to no file are recorded, and the others are imports. The imported files that were not
visited are collected after the `children` found so far. -/
def expand (around : Surroundings m) (conventions : Conventions) (root : Option Path)
    (file : Path) : (references : List Text) → (children : List Path) → Session →
    m (Except Misuse (List Path) × Session)
  | [], children, session => pure (.ok children, session)
  | reference :: references, children, session => do
    if !isLocal conventions reference then
      expand around conventions root file references children
        { session with graph := session.graph.addExternal file reference }
    else
      match ← (resolve conventions around.isFile around.cwd reference file.toText root).run with
      | .error (.misuse cause) => return (.error cause, session)
      | .error (.files fault) =>
        let session ← warn around (.referenceFault reference file fault) session
        expand around conventions root file references children session
      | .ok none =>
        around.tell (.unresolved reference file)
        expand around conventions root file references children
          { session with graph := session.graph.addMissing file reference }
      | .ok (some target) =>
        expand around conventions root file references
          (if target ∈ session.visited ∨ target ∈ children then children
            else children ++ [target])
          { session with graph := session.graph.addEdge file target }

/-- Takes one file from the queue: adds it to the result, and queues the files it imports if they
are within the bound. -/
def visit (around : Surroundings m) (plan : Plan) (root : Option Path) (file : Path)
    (depth : Nat) (search : Search) : m (Except Misuse Unit × Search) := do
  match ← (around.isFile file).run with
  | .error fault =>
    let session ← warn around (.fileFault file fault) search.session
    return (.ok (), { search with session })
  | .ok false => return (.ok (), search)
  | .ok true =>
    let search := { search with found := search.found ++ [file] }
    around.tell (.reached file depth)
    if plan.maxDepth.any (· ≤ depth) then return (.ok (), search)
    match ← (around.readText file).run with
    | .error fault =>
      let session ← warn around (.readFault file fault) search.session
      return (.ok (), { search with session })
    | .ok text =>
      match ← expand around plan.conventions root file (extract text) [] search.session with
      | (.error cause, session) => return (.error cause, { search with session })
      | (.ok children, session) =>
        return (.ok (), children.foldl (fun search child => search.enqueue child (depth + 1))
          { search with session })

/-- Takes files from the queue until it is empty, but at most so many. Every file comes into the
queue once, so a limit that no number of files exceeds is never met. -/
def run (around : Surroundings m) (plan : Plan) (root : Option Path) : (limit : Nat) → Search →
    m (Except Misuse Unit × Search)
  | 0, search => pure (.ok (), search)
  | limit + 1, search =>
    match search.queue with
    | [] => pure (.ok (), search)
    | (file, depth) :: queue => do
      match ← visit around plan root file depth { search with queue } with
      | (.error cause, search) => return (.error cause, search)
      | (.ok (), search) => run around plan root limit search

/-- Follows the imports of one entry. An entry that is missing, is no regular file or was visited
before gives no files. The answer comes with the session afterwards, also where it is a fault. -/
def follow (around : Surroundings m) (plan : Plan) (entry : Text) (session : Session) :
    m (Except Trouble (List Path) × Session) := do
  let file := (Path.ofText entry).absolute around.cwd
  let status : Except Files.Fault (Bool × Bool) ← ExceptT.run do
    let present ← around.holds file
    let isFile ← around.isFile file
    return (present, isFile)
  match status with
  | .error fault => return (.ok [], ← warn around (.entryFault entry fault) session)
  | .ok (false, _) => return (.ok [], ← warn around (.entryMissing entry) session)
  | .ok (true, false) => return (.ok [], ← warn around (.entryNoFile entry) session)
  | .ok (true, true) =>
    if file ∈ session.visited then return (.ok [], session)
    match ← (findRoot plan.conventions around.holds around.cwd file).run with
    | .error fault => return (.error (.files fault), session)
    | .ok root =>
      around.tell (.rootSought file root)
      let search : Search := { session, queue := [], found := [] }
      match ← run around plan root around.fileCount (search.enqueue file 0) with
      | (.error cause, search) => return (.error (.misuse cause), search.session)
      | (.ok (), search) => return (.ok search.found, search.session)

/-- Follows the imports of each entry in turn; a fault ends it. -/
def followEach (around : Surroundings m) (plan : Plan) : List Text → Session →
    m (Except Trouble (List Path) × Session)
  | [], session => pure (.ok [], session)
  | entry :: entries, session => do
    match ← follow around plan entry session with
    | (.error trouble, session) => return (.error trouble, session)
    | (.ok files, session) =>
      match ← followEach around plan entries session with
      | (.error trouble, session) => return (.error trouble, session)
      | (.ok more, session) => return (.ok (files ++ more), session)

/-- Follows the imports of all entries; the answer has each file once, where it is first found. -/
def followAll (around : Surroundings m) (plan : Plan) (entries : List Text) (session : Session) :
    m (Except Trouble (List Path) × Session) := do
  let (answer, session) ← followEach around plan entries session
  return (answer.map List.eraseDups, session)

end SourceLoom.Traversal
