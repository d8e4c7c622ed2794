import SourceLoom.Proofs.Graph.Nodes
import SourceLoom.Proofs.Traversal.Questions

/-!
# Steps of a search

A reference comes to one of four findings, and a file of the queue to one of five sights. The
search after a step is a function of the sight alone. A step takes its file from the queue, adds it
to the result if it is still there, and puts what it newly found at the end of the queue, of the
visited files and of the graph.
-/

namespace SourceLoom.Traversal

open Reference BreadthFirst

/-- What a reference comes to. -/
inductive Finding where
  /-- It names a package. -/
  | external
  /-- Its candidates could not be examined. -/
  | faulty (fault : Files.Fault)
  /-- It leads to no file. -/
  | missing
  /-- It leads to a file. -/
  | leads (target : Path)

/-- The file that a finding leads to. -/
def Finding.target? : Finding → Option Path
  | leads target => some target
  | _ => none

/-- The files that findings lead to. -/
def targets (findings : List (Text × Finding)) : List Path := findings.filterMap (·.2.target?)

/-- Whether a reference in a file may come to a finding: it does at some time. -/
def World.Finds (world : World) (conventions : Conventions) (root : Option Path) (file : Path)
    (reference : Text) : Finding → Prop
  | .external => isLocal conventions reference = false
  | .faulty fault => isLocal conventions reference = true ∧
    ∃ history, world.resolved conventions root file reference history = .error (.files fault)
  | .missing => isLocal conventions reference = true ∧
    ∃ history, world.resolved conventions root file reference history = .ok none
  | .leads target => isLocal conventions reference = true ∧
    (∃ history, world.resolved conventions root file reference history = .ok (some target)) ∧
      target.IsNormal ∧ ∃ history, world.isFile history target = .ok true

/-- The children and the session after some findings in a file. -/
def account (file : Path) : List (Text × Finding) → List Path → Session → List Path × Session
  | [], children, session => (children, session)
  | (reference, .external) :: findings, children, session =>
    account file findings children
      { session with graph := session.graph.addExternal file reference }
  | (reference, .faulty fault) :: findings, children, session =>
    account file findings children
      { session with warnings := session.warnings ++ [.referenceFault reference file fault] }
  | (reference, .missing) :: findings, children, session =>
    account file findings children
      { session with graph := session.graph.addMissing file reference }
  | (_, .leads target) :: findings, children, session =>
    account file findings
      (if target ∈ session.visited ∨ target ∈ children then children else children ++ [target])
      { session with graph := session.graph.addEdge file target }

/-- What the queue's next file comes to. -/
inductive Sight where
  /-- It could not be examined. -/
  | barred (fault : Files.Fault)
  /-- It is no regular file any more. -/
  | gone
  /-- It is a file at the bound. -/
  | atBound
  /-- It is a file that could not be read. -/
  | unread (fault : Files.Fault)
  /-- It is a file with this text, in which these were found. -/
  | read (text : Text) (findings : List (Text × Finding))

/-- Whether a file from the queue may come to a sight: it does at some time. -/
def World.Sees (world : World) (plan : Plan) (root : Option Path) (file : Path) (depth : Nat) :
    Sight → Prop
  | .barred fault => ∃ history, world.isFile history file = .error fault
  | .gone => ∃ history, world.isFile history file = .ok false
  | .atBound => (∃ history, world.isFile history file = .ok true) ∧
    plan.maxDepth.any (· ≤ depth) = true
  | .unread fault => (∃ history, world.isFile history file = .ok true) ∧
    plan.maxDepth.any (· ≤ depth) = false ∧ ∃ history, world.readText history file = .error fault
  | .read text findings => (∃ history, world.isFile history file = .ok true) ∧
    plan.maxDepth.any (· ≤ depth) = false ∧
      (∃ history, world.readText history file = .ok text) ∧
        findings.map Prod.fst = extract text ∧
          ∀ finding ∈ findings, world.Finds plan.conventions root file finding.1 finding.2

namespace Sight

/-- The files that a step adds to the result. -/
def kept (file : Path) : Sight → List Path
  | barred _ | gone => []
  | atBound | unread _ | read _ _ => [file]

/-- The files that a step reads. -/
def reads (file : Path) : Sight → List Path
  | barred _ | gone | atBound => []
  | unread _ | read _ _ => [file]

/-- The files that a step leads to. -/
def targets : Sight → List Path
  | read _ findings => Traversal.targets findings
  | _ => []

/-- A step adds at most its own file to the result, and reads at most that. -/
theorem sublists (file : Path) (sight : Sight) :
    (sight.kept file).Sublist [file] ∧ (sight.reads file).Sublist [file] := by
  cases sight with
  | barred fault => exact ⟨List.nil_sublist _, List.nil_sublist _⟩
  | gone => exact ⟨List.nil_sublist _, List.nil_sublist _⟩
  | atBound => exact ⟨List.Sublist.refl _, List.nil_sublist _⟩
  | unread fault => exact ⟨List.Sublist.refl _, List.Sublist.refl _⟩
  | read text findings => exact ⟨List.Sublist.refl _, List.Sublist.refl _⟩

end Sight

namespace Search

/-- The search with one more warning. -/
def warned (search : Search) (warning : Warning) : Search :=
  { search with
    session := { search.session with warnings := search.session.warnings ++ [warning] } }

/-- The search with one more file in its result. -/
def keep (search : Search) (file : Path) : Search := { search with found := search.found ++ [file] }

/-- The search with some files at the end of its queue. -/
def enqueueAll (search : Search) (files : List Path) (depth : Nat) : Search :=
  files.foldl (fun search file => search.enqueue file depth) search

/-- The search after a file was taken from its queue and came to a sight. -/
def after (search : Search) (file : Path) (depth : Nat) : Sight → Search
  | .barred fault => search.warned (.fileFault file fault)
  | .gone => search
  | .atBound => search.keep file
  | .unread fault => (search.keep file).warned (.readFault file fault)
  | .read _ findings =>
    let accounted := account file findings [] search.session
    { search.keep file with session := accounted.2 }.enqueueAll accounted.1 (depth + 1)

end Search

section Cases

variable {world : World} {plan : Plan} {root : Option Path} {file : Path}

/-- What the first finding leaves is what the others begin with. -/
theorem account_cons (file : Path) (finding : Text × Finding) (findings : List (Text × Finding))
    (children : List Path) (session : Session) :
    account file (finding :: findings) children session =
      account file findings (account file [finding] children session).1
        (account file [finding] children session).2 := by
  obtain ⟨reference, _ | _ | _ | _⟩ := finding <;> rfl

/-- A reference that is not local is recorded at once. -/
theorem expand_cons_external {conventions : Conventions} {reference : Text}
    (hlocal : isLocal conventions reference = false) (references : List Text)
    (children : List Path) (session : Session) :
    expand world.surroundings conventions root file (reference :: references) children session =
      expand world.surroundings conventions root file references children
        { session with graph := session.graph.addExternal file reference } := by
  rw [expand, hlocal]
  rfl

/-- A local reference is resolved, and what comes of it is recorded. -/
theorem expand_cons_local {conventions : Conventions} {reference : Text}
    (hlocal : isLocal conventions reference = true) (references : List Text)
    (children : List Path) (session : Session) (history : History) :
    (expand world.surroundings conventions root file (reference :: references) children
      session).run history =
      match (resolve conventions world.surroundings.isFile world.cwd reference file.toText
        root).run.run history with
      | (.error (.misuse cause), later) => ((.error cause, session), later)
      | (.error (.files fault), later) =>
        (expand world.surroundings conventions root file references children
          { session with
            warnings := session.warnings ++ [.referenceFault reference file fault] }).run
          (later ++ [.told (.warned (.referenceFault reference file fault))])
      | (.ok none, later) =>
        (expand world.surroundings conventions root file references children
          { session with graph := session.graph.addMissing file reference }).run
          (later ++ [.told (.unresolved reference file)])
      | (.ok (some target), later) =>
        (expand world.surroundings conventions root file references
          (if target ∈ session.visited ∨ target ∈ children then children
            else children ++ [target])
          { session with graph := session.graph.addEdge file target }).run later := by
  rw [expand, hlocal]
  simp only [Bool.not_true, Bool.false_eq_true, if_false]
  rw [run_bind, World.surroundings_cwd]
  generalize (resolve conventions world.surroundings.isFile world.cwd reference file.toText
    root).run.run history = resolved
  obtain ⟨(cause | fault) | _ | target, later⟩ := resolved <;> rfl

/-- A question about a file is answered and goes into the history. -/
theorem isFile_run {history : History} {answer : Except Files.Fault Bool}
    (h : world.isFile history file = answer) :
    (world.surroundings.isFile file).run.run history =
      (answer, history ++ [.isFile file answer]) := by
  rw [← h]
  rfl

/-- Reading a file is answered and goes into the history. -/
theorem readText_run {history : History} {answer : Except Files.Fault Text}
    (h : world.readText history file = answer) :
    (world.surroundings.readText file).run.run history =
      (answer, history ++ [.readText file answer]) := by
  rw [← h]
  rfl

/-- A regular file is added to the result and reported, and then read if it is short of the
bound. -/
theorem visit_of_isFile {history : History} (h : world.isFile history file = .ok true)
    (depth : Nat) (search : Search) :
    (visit world.surroundings plan root file depth search).run history =
      StateT.run (m := Id) (if plan.maxDepth.any (· ≤ depth) then
        pure (.ok (), search.keep file)
      else do
        match ← (world.surroundings.readText file).run with
        | .error fault =>
          let session ← warn world.surroundings (.readFault file fault) search.session
          return (.ok (), { search.keep file with session })
        | .ok text =>
          match ← expand world.surroundings plan.conventions root file (extract text) []
            search.session with
          | (.error cause, session) => return (.error cause, { search.keep file with session })
          | (.ok children, session) =>
            return (.ok (), { search.keep file with session }.enqueueAll children (depth + 1)))
      (history ++ [.isFile file (.ok true)] ++ [.told (.reached file depth)]) := by
  rw [visit, run_bind, isFile_run h]
  rfl

end Cases

section Shape

variable {file : Path} {depth : Nat}

/-- Accounting for findings leaves the visited files alone, and collects the children that are
new among what the findings lead to. -/
theorem account_children (file : Path) (findings : List (Text × Finding)) (children : List Path)
    (session : Session) :
    (account file findings children session).2.visited = session.visited ∧
      (account file findings children session).1 =
        children ++ fresh (session.visited ++ children) (targets findings) := by
  induction findings generalizing children session with
  | nil => exact ⟨rfl, (List.append_nil children).symm⟩
  | cons finding findings ih =>
    obtain ⟨reference, _ | fault | _ | target⟩ := finding
    · exact ih _ _
    · exact ih _ _
    · exact ih _ _
    · have hmem : target ∈ session.visited ++ children ↔
          target ∈ session.visited ∨ target ∈ children := List.mem_append
      have htargets : targets ((reference, .leads target) :: findings) =
          target :: targets findings := rfl
      rw [account, htargets, fresh]
      simp only [hmem]
      split
      · exact ih _ _
      · obtain ⟨hvisited, hchildren⟩ := ih (children ++ [target])
          { session with graph := session.graph.addEdge file target }
        refine ⟨hvisited, ?_⟩
        rw [hchildren, List.append_assoc, List.append_assoc]
        rfl

/-- If the visited files and the children so far are the files of the graph, accounting for
findings in one of them adds the new children, one deeper. -/
theorem account_nodes (findings : List (Text × Finding)) (children : List Path)
    (session : Session) (hfiles : ∀ x, x ∈ session.graph.files ↔ x ∈ session.visited ++ children)
    (hdepth : session.graph.depth? file = some depth) :
    (account file findings children session).2.graph.nodes = session.graph.nodes ++
      (fresh (session.visited ++ children) (targets findings)).map (·, (depth + 1 : Int)) := by
  induction findings generalizing children session with
  | nil => exact (List.append_nil _).symm
  | cons finding findings ih =>
    have hfile := Graph.mem_files_of_depth? hdepth
    -- A step that adds no node leaves the induction where it was.
    have hsame : ∀ {graph : Graph}, graph.nodes = session.graph.nodes →
        (∀ x, x ∈ graph.files ↔ x ∈ session.visited ++ children) ∧
          graph.depth? file = some (depth : Int) := by
      intro graph hn
      refine ⟨fun x => ?_, Graph.depth?_of_nodes_eq_append (by rw [hn, List.append_nil]) hdepth⟩
      rw [← hfiles x, Graph.files, hn]
      rfl
    obtain ⟨reference, _ | fault | _ | target⟩ := finding
    · have hn := Graph.addExternal_nodes hfile reference
      rw [← hn]
      exact ih children _ (hsame hn).1 (hsame hn).2
    · exact ih children _ hfiles hdepth
    · have hn := Graph.addMissing_nodes hfile reference
      rw [← hn]
      exact ih children _ (hsame hn).1 (hsame hn).2
    · have htargets : targets ((reference, .leads target) :: findings) =
          target :: targets findings := rfl
      have hmem : target ∈ session.visited ++ children ↔
          target ∈ session.visited ∨ target ∈ children := List.mem_append
      rw [account, htargets, fresh]
      simp only [hmem]
      split
      · rename_i hold
        have hn := Graph.addEdge_nodes_of_mem hfile ((hfiles target).mpr (hmem.mpr hold))
        rw [← hn]
        exact ih children _ (hsame hn).1 (hsame hn).2
      · rename_i hnew
        have hn := Graph.addEdge_nodes_of_not_mem hdepth
          fun h => hnew (hmem.mp ((hfiles target).mp h))
        rw [ih (children ++ [target]) { session with graph := session.graph.addEdge file target },
          hn, List.append_assoc, List.append_assoc]
        · rfl
        · intro x
          rw [Graph.files, hn, List.map_append, List.mem_append, ← List.append_assoc,
            List.mem_append, ← hfiles x]
          rfl
        · exact Graph.depth?_of_nodes_eq_append hn hdepth

/-- Files that are new to the session and already in its graph are queued and visited in order. -/
theorem enqueueAll_eq (search : Search) {files : List Path} (hn : files.Nodup)
    (hnew : ∀ x ∈ files, x ∉ search.session.visited)
    (hmem : ∀ x ∈ files, x ∈ search.session.graph.files) (depth : Nat) :
    search.enqueueAll files depth =
      { search with
        session := { search.session with visited := search.session.visited ++ files }
        queue := search.queue ++ files.map (·, depth) } := by
  induction files generalizing search with
  | nil => simp only [Search.enqueueAll, List.foldl_nil, List.append_nil, List.map_nil]
  | cons first files ih =>
    obtain ⟨hfirst, hn⟩ := List.nodup_cons.mp hn
    have hone : search.enqueue first depth =
        { search with
          session := { search.session with visited := search.session.visited ++ [first] }
          queue := search.queue ++ [(first, depth)] } := by
      rw [Search.enqueue, if_neg (hnew first List.mem_cons_self),
        Graph.addNode_of_mem (hmem first List.mem_cons_self)]
    have hstep := ih (search.enqueue first depth) hn
      (by
        intro x hx hin
        rw [hone] at hin
        rcases List.mem_append.mp hin with hin | hin
        · exact hnew x (List.mem_cons_of_mem _ hx) hin
        · exact hfirst (List.mem_singleton.mp hin ▸ hx))
      (by
        intro x hx
        rw [hone]
        exact hmem x (List.mem_cons_of_mem _ hx))
    rw [Search.enqueueAll, List.foldl_cons]
    rw [Search.enqueueAll] at hstep
    rw [hstep, hone]
    simp only [List.append_assoc, List.singleton_append, List.map_cons]

/-- The bookkeeping of a session: visited are the files of the graph. -/
structure Session.Aligned (session : Session) : Prop where
  /-- The visited files are those of the graph, in the order of their discovery. -/
  visited_eq : session.visited = session.graph.files
  /-- No file was visited twice. -/
  nodup : session.visited.Nodup

/-- A fresh session has its books in order. -/
theorem Session.aligned_fresh : Session.Aligned {} := ⟨rfl, List.nodup_nil⟩

/-- The bookkeeping of a search: besides, what is queued has the same depth in the graph. -/
structure Search.Aligned (search : Search) : Prop extends search.session.Aligned where
  /-- A queued file has its depth in the graph. -/
  depth_eq : ∀ x ∈ search.queue, search.session.graph.depth? x.1 = some (x.2 : Int)

/-- What a step does to the bookkeeping: the fresh files among those it leads to come to the end
of the queue, of the visited files and of the graph. -/
theorem after_shape (search : Search) (hv : search.session.visited = search.session.graph.files)
    (hd : search.session.graph.depth? file = some (depth : Int)) (sight : Sight) :
    (search.after file depth sight).found = search.found ++ sight.kept file ∧
      (search.after file depth sight).queue = search.queue ++
        (fresh search.session.visited sight.targets).map (·, depth + 1) ∧
      (search.after file depth sight).session.visited = search.session.visited ++
        fresh search.session.visited sight.targets ∧
      (search.after file depth sight).session.graph.nodes = search.session.graph.nodes ++
        (fresh search.session.visited sight.targets).map (·, (depth + 1 : Int)) := by
  cases sight with
  | barred fault => simp [Search.after, Search.warned, Sight.kept, Sight.targets, fresh]
  | gone => simp [Search.after, Sight.kept, Sight.targets, fresh]
  | atBound => simp [Search.after, Search.keep, Sight.kept, Sight.targets, fresh]
  | unread fault =>
    simp [Search.after, Search.warned, Search.keep, Sight.kept, Sight.targets, fresh]
  | read text findings =>
    obtain ⟨hvisited, hchildren⟩ := account_children file findings [] search.session
    have hnodes := account_nodes findings [] search.session
      (fun x => by rw [List.append_nil, hv]) hd
    rw [List.append_nil] at hchildren hnodes
    rw [List.nil_append] at hchildren
    have hnew : ∀ x ∈ (account file findings [] search.session).1, x ∉ search.session.visited := by
      intro x hx
      rw [hchildren] at hx
      exact (mem_fresh.mp hx).2
    have hmem : ∀ x ∈ (account file findings [] search.session).1,
        x ∈ (account file findings [] search.session).2.graph.files := by
      intro x hx
      rw [hchildren] at hx
      rw [Graph.files, hnodes, List.map_append, List.map_map]
      exact List.mem_append_right _ (List.mem_map.mpr ⟨x, hx, rfl⟩)
    have hqueued := enqueueAll_eq
      { search.keep file with session := (account file findings [] search.session).2 }
      (hchildren ▸ fresh_nodup _ _) (hvisited ▸ hnew) hmem (depth + 1)
    change search.after file depth (.read text findings) = _ at hqueued
    rw [hqueued]
    refine ⟨rfl, ?_, ?_, hnodes⟩
    · exact congrArg (fun new => search.queue ++ new.map (·, depth + 1)) hchildren
    · exact congrArg₂ (· ++ ·) hvisited hchildren

/-- A step keeps the bookkeeping. -/
theorem Search.Aligned.after {search : Search} {queue : List (Path × Nat)}
    (h : search.Aligned) (hq : search.queue = (file, depth) :: queue) (sight : Sight) :
    ({ search with queue }.after file depth sight).Aligned := by
  have hd := h.depth_eq (file, depth) (by rw [hq]; exact List.mem_cons_self)
  obtain ⟨-, hqueue, hvisited, hnodes⟩ :=
    after_shape { search with queue } h.visited_eq hd sight
  have hnodup := append_fresh_nodup h.nodup sight.targets
  have hfiles : ({ search with queue }.after file depth sight).session.visited =
      ({ search with queue }.after file depth sight).session.graph.files := by
    rw [Graph.files, hvisited, hnodes, List.map_append, List.map_map, h.visited_eq]
    exact congrArg _ (List.map_id _).symm
  refine ⟨⟨hfiles, hvisited ▸ hnodup⟩, ?_⟩
  intro x hx
  rw [hqueue, List.mem_append, List.mem_map] at hx
  rcases hx with hx | ⟨y, hy, rfl⟩
  · refine Graph.depth?_of_nodes_eq_append hnodes (h.depth_eq x ?_)
    rw [hq]
    exact List.mem_cons_of_mem _ hx
  · rw [Graph.depth?_eq_some_iff (hfiles ▸ hvisited ▸ hnodup), hnodes, List.mem_append]
    exact Or.inr (List.mem_map.mpr ⟨y, hy, rfl⟩)

end Shape

end SourceLoom.Traversal
