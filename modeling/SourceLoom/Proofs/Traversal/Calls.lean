import SourceLoom.Proofs.Distinct
import SourceLoom.Proofs.Traversal.Runs

/-!
# Calls of a session

A call that follows an entry either ends before it visits anything, or it is a run from the entry.
The states that a session comes to are those that such calls lead to from a fresh session, and
following several entries leads to no others. In every such state the visited files are the files
of the graph, and the lists that the calls gave are parts of it that do not overlap.
-/

namespace SourceLoom.Traversal

open Reference BreadthFirst

/-- The file that an entry names. -/
def World.place (world : World) (entry : Text) : Path := (Path.ofText entry).absolute world.cwd

/-- The root of the project of a file, if it is sought after a history. -/
def World.rootOf (world : World) (conventions : Conventions) (file : Path) (history : History) :
    Except Files.Fault (Option Path) :=
  ((findRoot conventions world.surroundings.holds world.cwd file).run.run history).1

/-- The two questions about an entry. -/
def World.status (world : World) (file : Path) :
    StateM History (Except Files.Fault (Bool × Bool)) :=
  ExceptT.run do
    let present ← world.surroundings.holds file
    let isFile ← world.surroundings.isFile file
    return (present, isFile)

/-- The search that begins at a file. -/
def Search.start (session : Session) (file : Path) : Search :=
  ({ session, queue := [], found := [] } : Search).enqueue file 0

/-- What following an entry may come to: the answer, the session afterwards, and the files that
were taken from the queue. -/
inductive World.Follows (world : World) (plan : Plan) (entry : Text) (session : Session) :
    Except Trouble (List Path) → Session → List Step → Prop
  /-- The entry was not seen to be a regular file. -/
  | skipped {history : History} (warning : Warning) :
      world.holds history (world.place entry) ≠ .ok true ∨
        world.isFile history (world.place entry) ≠ .ok true →
      Follows world plan entry session (.ok [])
        { session with warnings := session.warnings ++ [warning] } []
  /-- The entry was visited before. -/
  | known {history : History} : world.isFile history (world.place entry) = .ok true →
      world.place entry ∈ session.visited → Follows world plan entry session (.ok []) session []
  /-- The root of its project could not be sought. -/
  | rootless {history earlier : History} {fault : Files.Fault} :
      world.isFile history (world.place entry) = .ok true →
      world.place entry ∉ session.visited →
      world.rootOf plan.conventions (world.place entry) earlier = .error fault →
      Follows world plan entry session (.error (.files fault)) session []
  /-- Its imports were followed. -/
  | searched {history earlier : History} {root : Option Path} {steps : List Step} {final : Search} :
      world.isFile history (world.place entry) = .ok true →
      world.place entry ∉ session.visited →
      world.rootOf plan.conventions (world.place entry) earlier = .ok root →
      world.Runs plan root (Search.start session (world.place entry)) steps final →
      final.queue = [] ∨ steps.length = world.fileCount →
      Follows world plan entry session (.ok final.found) final.session steps

variable {world : World} {plan : Plan} {session : Session} {entry : Text}

/-- What a new search does to the bookkeeping. -/
theorem start_shape {file : Path} (ha : session.Aligned) (hf : file ∉ session.visited) :
    (Search.start session file).session.visited = session.visited ++ [file] ∧
      (Search.start session file).session.graph.nodes = session.graph.nodes ++ [(file, 0)] := by
  refine ⟨?_, Graph.addNode_nodes_of_not_mem (ha.visited_eq ▸ hf) 0⟩
  simp only [Search.start, Search.enqueue, if_neg hf]

/-- A new search has its books in order. -/
theorem Session.Aligned.start {file : Path} (ha : session.Aligned) (hf : file ∉ session.visited) :
    (Search.start session file).Aligned := by
  obtain ⟨hvisited, hnodes⟩ := start_shape ha hf
  have hfiles : (Search.start session file).session.graph.files = session.visited ++ [file] := by
    rw [Graph.files, hnodes, List.map_append, ha.visited_eq]
    rfl
  have hnodup : (session.visited ++ [file]).Nodup :=
    List.nodup_append.mpr ⟨ha.nodup, List.nodup_singleton file, by
      rintro x hx y hy rfl
      exact hf (List.mem_singleton.mp hy ▸ hx)⟩
  refine ⟨⟨hvisited.trans hfiles.symm, hvisited ▸ hnodup⟩, ?_⟩
  intro x hx
  rw [List.mem_singleton.mp hx, Graph.depth?_eq_some_iff (hfiles ▸ hnodup), hnodes]
  exact List.mem_append_right _ List.mem_cons_self

/-- A question whether a path leads to anything is answered and goes into the history. -/
theorem holds_run {history : History} {file : Path} {answer : Except Files.Fault Bool}
    (h : world.holds history file = answer) :
    (world.surroundings.holds file).run.run history =
      (answer, history ++ [.holds file answer]) := by
  rw [← h]
  rfl

/-- Both questions about an entry are answered so that it is a regular file. -/
structure World.Admits (world : World) (history : History) (file : Path) : Prop where
  /-- It leads to something. -/
  holds : world.holds history file = .ok true
  /-- It leads to a regular file. -/
  isFile : world.isFile (history ++ [.holds file (.ok true)]) file = .ok true

/-- The history after both questions were answered so. -/
def admitted (history : History) (file : Path) : History :=
  history ++ [.holds file (.ok true)] ++ [.isFile file (.ok true)]

/-- Only questions pass until an entry is admitted. -/
theorem admitted_passes (history : History) (file : Path) :
    Passes Exchange.IsSilent history (admitted history file) :=
  (Passes.one history trivial).trans (Passes.one _ trivial)

/-- The questions about an entry that is admitted are answered. -/
theorem World.Admits.status_run {history : History} {file : Path}
    (h : world.Admits history file) :
    (world.status file).run history = (.ok (true, true), admitted history file) := by
  rw [World.status, ExceptT.run_bind, run_bind, holds_run h.holds]
  dsimp only
  rw [ExceptT.run_bind, run_bind, isFile_run h.isFile]
  rfl

/-- Some answer to the questions shows that an entry is not admitted. -/
theorem status_run_of_not_admits {history : History} {file : Path}
    (h : ¬ world.Admits history file) :
    ∃ status between, (world.status file).run history = (status, between) ∧
      status ≠ .ok (true, true) ∧ Passes Exchange.IsSilent history between := by
  rw [World.status, ExceptT.run_bind, run_bind, holds_run rfl]
  cases hholds : world.holds history file with
  | error fault => exact ⟨.error fault, _, rfl, nofun, Passes.one history trivial⟩
  | ok present =>
    dsimp only
    rw [ExceptT.run_bind, run_bind, isFile_run rfl]
    have hasked : Passes Exchange.IsSilent history (history ++ [.holds file (.ok present)]) :=
      Passes.one history trivial
    cases hisFile : world.isFile (history ++ [.holds file (.ok present)]) file with
    | error fault => exact ⟨.error fault, _, rfl, nofun, hasked.trans (Passes.one _ trivial)⟩
    | ok isFile =>
      refine ⟨.ok (present, isFile), _, rfl, ?_, hasked.trans (Passes.one _ trivial)⟩
      rintro ⟨⟩
      exact h ⟨hholds, hisFile⟩

/-- Telling goes into the history. -/
theorem tell_run (event : Event) (history : History) :
    (world.surroundings.tell event).run history = ((), history ++ [.told event]) := rfl

/-- Whether a warning is about an entry. -/
def Warning.IsOfEntry (entry : Text) : Warning → Prop
  | entryFault other _ | entryMissing other | entryNoFile other => other = entry
  | fileFault _ _ | readFault _ _ | referenceFault _ _ _ => False

/-- What following an entry comes to, with the history afterwards. -/
inductive World.Serves (world : World) (plan : Plan) (entry : Text) (session : Session)
    (history : History) : Except Trouble (List Path) → Session → List Step → History → Prop
  /-- The entry was not admitted. -/
  | refused {between : History} {warning : Warning} : ¬ world.Admits history (world.place entry) →
      warning.IsOfEntry entry → Passes Exchange.IsSilent history between →
      Serves world plan entry session history (.ok [])
        { session with warnings := session.warnings ++ [warning] } []
        (between ++ [.told (.warned warning)])
  /-- The entry was visited before. -/
  | known : world.Admits history (world.place entry) → world.place entry ∈ session.visited →
      Serves world plan entry session history (.ok []) session []
        (admitted history (world.place entry))
  /-- The root of its project could not be sought. -/
  | rootless {fault : Files.Fault} {asked : History} : world.Admits history (world.place entry) →
      world.place entry ∉ session.visited →
      (findRoot plan.conventions world.surroundings.holds world.cwd (world.place entry)).run.run
        (admitted history (world.place entry)) = (.error fault, asked) →
      Serves world plan entry session history (.error (.files fault)) session [] asked
  /-- Its imports were followed. -/
  | searched {root : Option Path} {asked after : History} {steps : List Step} {final : Search} :
      world.Admits history (world.place entry) → world.place entry ∉ session.visited →
      (findRoot plan.conventions world.surroundings.holds world.cwd (world.place entry)).run.run
        (admitted history (world.place entry)) = (.ok root, asked) →
      world.Proceeds plan root (Search.start session (world.place entry))
        (asked ++ [.told (.rootSought (world.place entry) root)]) steps final after →
      final.queue = [] ∨ steps.length = world.fileCount →
      Serves world plan entry session history (.ok final.found) final.session steps after

/-- The warning about an entry that is refused, by the answers to the questions about it. -/
def refusal (entry : Text) : Except Files.Fault (Bool × Bool) → Warning
  | .error fault => .entryFault entry fault
  | .ok (false, _) => .entryMissing entry
  | .ok (true, _) => .entryNoFile entry

/-- An entry about which not both questions were answered with yes is refused with a warning. -/
theorem follow_of_status (plan : Plan) {history between : History}
    {status : Except Files.Fault (Bool × Bool)}
    (hrun : (world.status (world.place entry)).run history = (status, between))
    (hstatus : status ≠ .ok (true, true)) (session : Session) :
    (follow world.surroundings plan entry session).run history =
      ((.ok [], { session with warnings := session.warnings ++ [refusal entry status] }),
        between ++ [.told (.warned (refusal entry status))]) := by
  have hplace : (Path.ofText entry).absolute world.surroundings.cwd = world.place entry := rfl
  unfold World.status at hrun
  rw [follow, run_bind]
  simp only [hplace, hrun]
  obtain fault | ⟨_ | _, _ | _⟩ := status
  · rfl
  · rfl
  · rfl
  · rfl
  · exact absurd rfl hstatus

/-- An entry that is not admitted comes to a warning, whatever the session knows. -/
theorem follow_refused (plan : Plan) {history : History}
    (h : ¬ world.Admits history (world.place entry)) :
    ∃ warning between, warning.IsOfEntry entry ∧ Passes Exchange.IsSilent history between ∧
      ∀ session, (follow world.surroundings plan entry session).run history =
        ((.ok [], { session with warnings := session.warnings ++ [warning] }),
          between ++ [.told (.warned warning)]) := by
  obtain ⟨status, between, hrun, hstatus, hpasses⟩ := status_run_of_not_admits h
  refine ⟨refusal entry status, between, ?_, hpasses, follow_of_status plan hrun hstatus⟩
  obtain fault | ⟨_ | _, _⟩ := status <;> rfl

section Admitted

variable {history : History} (h : world.Admits history (world.place entry))

include h

/-- An entry that was visited before gives nothing. -/
theorem follow_known (plan : Plan) (hold : world.place entry ∈ session.visited) :
    (follow world.surroundings plan entry session).run history =
      ((.ok [], session), admitted history (world.place entry)) := by
  have hplace : (Path.ofText entry).absolute world.surroundings.cwd = world.place entry := rfl
  have hrun := h.status_run
  unfold World.status at hrun
  rw [follow, run_bind]
  simp only [hplace, hrun, if_pos hold]
  rfl

/-- If the root of its project cannot be sought, the session stays as it is. -/
theorem follow_rootless (hnew : world.place entry ∉ session.visited) {fault : Files.Fault}
    {asked : History}
    (hroot : (findRoot plan.conventions world.surroundings.holds world.cwd
      (world.place entry)).run.run (admitted history (world.place entry)) = (.error fault, asked)) :
    (follow world.surroundings plan entry session).run history =
      ((.error (.files fault), session), asked) := by
  have hplace : (Path.ofText entry).absolute world.surroundings.cwd = world.place entry := rfl
  have hrun := h.status_run
  unfold World.status at hrun
  rw [follow, run_bind]
  simp only [hplace, hrun, if_neg hnew]
  rw [run_bind, World.surroundings_cwd, hroot]
  rfl

/-- A new entry is followed by a run from it. -/
theorem follow_searched (hnew : world.place entry ∉ session.visited) {root : Option Path}
    {asked after : History} {final : Search}
    (hroot : (findRoot plan.conventions world.surroundings.holds world.cwd
      (world.place entry)).run.run (admitted history (world.place entry)) = (.ok root, asked))
    (hsearch : (run world.surroundings plan root world.fileCount
      (Search.start session (world.place entry))).run
        (asked ++ [.told (.rootSought (world.place entry) root)]) = ((.ok (), final), after)) :
    (follow world.surroundings plan entry session).run history =
      ((.ok final.found, final.session), after) := by
  have hplace : (Path.ofText entry).absolute world.surroundings.cwd = world.place entry := rfl
  have hrun := h.status_run
  unfold World.status at hrun
  rw [follow, run_bind]
  simp only [hplace, hrun, if_neg hnew]
  rw [run_bind, World.surroundings_cwd, hroot]
  unfold Search.start at hsearch
  dsimp only
  rw [run_bind, run_bind, tell_run, World.surroundings_fileCount, hsearch]
  rfl

end Admitted

/-- The root of the project of an entry is clean. -/
theorem findRoot_place_isClean {conventions : Conventions} {root : Option Path}
    {history asked : History}
    (h : (findRoot conventions world.surroundings.holds world.cwd (world.place entry)).run.run
      history = (.ok root, asked)) : ∀ directory ∈ root, directory.IsClean := by
  have hnormal : (world.place entry).IsNormal :=
    Path.absolute_ofText_isNormal entry world.cwd_isNormal
  rintro directory ⟨⟩
  exact findRoot_isClean hnormal.isClean world.cwd_isNormal (congrArg Prod.fst h)

/-- A new search has only a normal path in its queue. -/
theorem start_queue_isNormal (world : World) (session : Session) (entry : Text) :
    ∀ x ∈ (Search.start session (world.place entry)).queue, x.1.IsNormal := by
  intro x hx
  rw [List.mem_singleton.mp hx]
  exact Path.absolute_ofText_isNormal entry world.cwd_isNormal

/-- An entry of a session that has its books in order comes to something, and no misuse comes
up. -/
theorem follow_serves (world : World) (plan : Plan) (ha : session.Aligned) (entry : Text)
    (history : History) :
    ∃ answer later steps after, world.Serves plan entry session history answer later steps after ∧
      (follow world.surroundings plan entry session).run history = ((answer, later), after) := by
  by_cases hadmits : world.Admits history (world.place entry)
  · by_cases hold : world.place entry ∈ session.visited
    · exact ⟨.ok [], session, [], _, .known hadmits hold, follow_known hadmits plan hold⟩
    · cases hfound : (findRoot plan.conventions world.surroundings.holds world.cwd
        (world.place entry)).run.run (admitted history (world.place entry)) with
      | mk found asked =>
        cases found with
        | error fault =>
          exact ⟨.error (.files fault), session, [], asked, .rootless hadmits hold hfound,
            follow_rootless hadmits hold hfound⟩
        | ok root =>
          obtain ⟨steps, final, after, hproceeds, hover, hle⟩ :=
            exists_proceeds world plan (findRoot_place_isClean hfound) world.fileCount
              (ha.start hold) (start_queue_isNormal world session entry)
              (asked ++ [.told (.rootSought (world.place entry) root)])
          exact ⟨.ok final.found, final.session, steps, after,
            .searched hadmits hold hfound hproceeds hover,
            follow_searched hadmits hold hfound (hproceeds.run_of_over hover hle)⟩
  · obtain ⟨warning, between, hwarning, hpasses, hrun⟩ := follow_refused plan hadmits
    exact ⟨.ok [], _, [], _, .refused hadmits hwarning hpasses, hrun session⟩

namespace World.Serves

variable {history after : History} {answer : Except Trouble (List Path)} {later : Session}
  {steps : List Step}

/-- The files that a call gives are reported, and those that it reads are read. -/
theorem adds (h : world.Serves plan entry session history answer later steps after) :
    Adds history after (steps.flatMap Step.reports) (steps.flatMap Step.reads) := by
  have hsought := (world.findRoot_passes plan.conventions (world.place entry)
    (admitted history (world.place entry))).adds
  have hadmitted := (admitted_passes history (world.place entry)).adds
  cases h with
  | @refused _ warning _ _ hpasses => exact hpasses.adds.trans (adds_told _ (.warned warning))
  | known _ _ => exact hadmitted
  | rootless _ _ hroot =>
    rw [hroot] at hsought
    exact hadmitted.trans hsought
  | @searched root asked _ _ _ _ _ hroot hproceeds _ =>
    rw [hroot] at hsought
    have htold := adds_told asked (.rootSought (world.place entry) root)
    exact ((hadmitted.trans hsought).trans htold).trans hproceeds.adds

/-- A call comes to what it may come to. -/
theorem follows (h : world.Serves plan entry session history answer later steps after)
    (ha : session.Aligned) : world.Follows plan entry session answer later steps := by
  cases h with
  | @refused _ warning hrefused _ _ =>
    by_cases hholds : world.holds history (world.place entry) = .ok true
    · exact .skipped warning (Or.inr fun hisFile => hrefused ⟨hholds, hisFile⟩)
    · exact .skipped warning (Or.inl hholds)
  | known hadmits hold => exact .known hadmits.isFile hold
  | rootless hadmits hnew hroot =>
    exact .rootless hadmits.isFile hnew (congrArg Prod.fst hroot)
  | searched hadmits hnew hroot hproceeds hover =>
    have hruns := hproceeds.runs (findRoot_place_isClean hroot) (ha.start hnew)
      (start_queue_isNormal world session entry)
    exact .searched hadmits.isFile hnew (congrArg Prod.fst hroot) hruns hover

end World.Serves

/-- An entry of a session that has its books in order comes to what it may come to. -/
theorem follow_run (world : World) (plan : Plan) (ha : session.Aligned) (entry : Text)
    (history : History) :
    ∃ answer later steps after, world.Follows plan entry session answer later steps ∧
      Adds history after (steps.flatMap Step.reports) (steps.flatMap Step.reads) ∧
      (follow world.surroundings plan entry session).run history = ((answer, later), after) := by
  obtain ⟨answer, later, steps, after, hserves, hrun⟩ := follow_serves world plan ha entry history
  exact ⟨answer, later, steps, after, hserves.follows ha, hserves.adds, hrun⟩

/-- A call keeps the bookkeeping. Its answer and the files it read are among the files it took from
the queue, which it visited newly and in that order. -/
theorem World.Follows.extends {answer : Except Trouble (List Path)} {later : Session}
    {steps : List Step} (h : world.Follows plan entry session answer later steps)
    (ha : session.Aligned) :
    later.Aligned ∧ (answer.toOption.toList.flatten = steps.flatMap Step.kept) ∧
      ∃ new, later.visited = session.visited ++ new ∧ (steps.map Step.file).Sublist new := by
  cases h with
  | skipped warning _ =>
    exact ⟨⟨ha.visited_eq, ha.nodup⟩, rfl, [], (List.append_nil _).symm, List.Sublist.refl _⟩
  | known _ _ => exact ⟨ha, rfl, [], (List.append_nil _).symm, List.Sublist.refl _⟩
  | rootless _ _ _ => exact ⟨ha, rfl, [], (List.append_nil _).symm, List.Sublist.refl _⟩
  | searched _ hnew _ hruns _ =>
    obtain ⟨hfinal, hfound, new, hvisited, htaken⟩ := hruns.extends (ha.start hnew)
    refine ⟨hfinal.toAligned, ?_, world.place entry :: new, ?_, ?_⟩
    · rw [hfound]
      exact List.append_nil _
    · rw [hvisited, (start_shape ha hnew).1, List.append_assoc]
      rfl
    · have hqueue : (Search.start session (world.place entry)).queue.map Prod.fst ++ new =
          world.place entry :: new := rfl
      rw [← hqueue, ← htaken]
      exact List.sublist_append_left _ _

/-- The states that a session comes to by following entries, with the lists that this gave. -/
inductive Reached (world : World) (plan : Plan) : List (List Path) → Session → History → Prop
  /-- Nothing was followed yet. -/
  | fresh : Reached world plan [] {} []
  /-- One more entry was followed. A fault gives no list. -/
  | step {lists : List (List Path)} {session later : Session} {history after : History}
      {entry : Text} {answer : Except Trouble (List Path)} :
      Reached world plan lists session history →
      (follow world.surroundings plan entry session).run history = ((answer, later), after) →
      Reached world plan (lists ++ answer.toOption.toList) later after

/-- In every state that a session comes to its books are in order, and the lists given and the
files read are among the visited files, in their order. -/
theorem Reached.invariant {lists : List (List Path)} {history : History}
    (h : Reached world plan lists session history) :
    session.Aligned ∧ lists.flatten.Sublist session.visited ∧
      (reads history).Sublist session.visited := by
  induction h with
  | fresh => exact ⟨Session.aligned_fresh, List.Sublist.refl _, List.Sublist.refl _⟩
  | @step lists session later history after entry answer _ hrun ih =>
    obtain ⟨ha, hlists, hreads⟩ := ih
    obtain ⟨answer', later', steps, after', hfollows, hadds, hrun'⟩ :=
      follow_run world plan ha entry history
    rw [hrun] at hrun'
    cases hrun'
    obtain ⟨hlater, hanswer, new, hvisited, htaken⟩ := hfollows.extends ha
    obtain ⟨hkept, hread⟩ := Step.sublists steps
    refine ⟨hlater, ?_, ?_⟩
    · rw [List.flatten_append, hanswer, hvisited]
      exact hlists.append (hkept.trans htaken)
    · rw [hadds.reads_eq, hvisited]
      exact hreads.append (hread.trans htaken)

/-- The files reported are the files given. -/
theorem Reached.reports_eq {lists : List (List Path)} {history : History}
    (h : Reached world plan lists session history) :
    (reports history).map Prod.fst = lists.flatten := by
  induction h with
  | fresh => rfl
  | @step lists session later history after entry answer hbefore hrun ih =>
    obtain ⟨answer', later', steps, after', hfollows, hadds, hrun'⟩ :=
      Traversal.follow_run world plan hbefore.invariant.1 entry history
    rw [hrun] at hrun'
    cases hrun'
    obtain ⟨-, hanswer, -⟩ := hfollows.extends hbefore.invariant.1
    rw [hadds.reports_eq, List.map_append, ih, Step.reports_fst, ← hanswer, List.flatten_append]

/-- In a state that a session comes to, an entry leads to another such state, and the files
visited before stay first. -/
theorem Reached.follow_run {lists : List (List Path)} {history : History}
    (h : Reached world plan lists session history) (entry : Text) :
    ∃ answer later after,
      (follow world.surroundings plan entry session).run history =
        ((answer, later), after) ∧
      Reached world plan (lists ++ answer.toOption.toList) later after ∧
      session.visited <+: later.visited := by
  obtain ⟨answer, later, steps, after, hfollows, -, hrun⟩ :=
    Traversal.follow_run world plan h.invariant.1 entry history
  obtain ⟨-, -, new, hvisited, -⟩ := hfollows.extends h.invariant.1
  exact ⟨answer, later, after, hrun, h.step hrun, new, hvisited.symm⟩

section Several

variable {entries : List Text} {next last : Session} {history between after : History}

/-- Following an entry and then others joins what they give. -/
theorem followEach_cons {files : List Path} {answer : Except Trouble (List Path)}
    (hfirst : (follow world.surroundings plan entry session).run history =
      ((.ok files, next), between))
    (hothers : (followEach world.surroundings plan entries next).run between =
      ((answer, last), after)) :
    (followEach world.surroundings plan (entry :: entries) session).run history =
      ((answer.map (files ++ ·), last), after) := by
  rw [followEach, run_bind, hfirst]
  dsimp only
  rw [run_bind, hothers]
  cases answer <;> rfl

/-- A fault of the first entry ends it. -/
theorem followEach_cons_error {trouble : Trouble}
    (hfirst : (follow world.surroundings plan entry session).run history =
      ((.error trouble, next), between)) (entries : List Text) :
    (followEach world.surroundings plan (entry :: entries) session).run history =
      ((.error trouble, next), between) := by
  rw [followEach, run_bind, hfirst]
  rfl

/-- Following several entries comes to the fault of the first, or to what it gives and what the
others come to. -/
theorem followEach_cons_cases {answer : Except Trouble (List Path)}
    (hrun : (followEach world.surroundings plan (entry :: entries) session).run history =
      ((answer, last), after)) :
    (∃ trouble, answer = .error trouble ∧
      (follow world.surroundings plan entry session).run history =
        ((.error trouble, last), after)) ∨
      ∃ files next between others, answer = others.map (files ++ ·) ∧
        (follow world.surroundings plan entry session).run history =
          ((.ok files, next), between) ∧
        (followEach world.surroundings plan entries next).run between =
          ((others, last), after) := by
  cases hfirst : (follow world.surroundings plan entry session).run history with
  | mk first between =>
    obtain ⟨trouble | files, next⟩ := first
    · cases hrun.symm.trans (followEach_cons_error hfirst entries)
      exact Or.inl ⟨trouble, rfl, rfl⟩
    · cases hothers : (followEach world.surroundings plan entries next).run between with
      | mk given final =>
        obtain ⟨others, later⟩ := given
        cases hrun.symm.trans (followEach_cons hfirst hothers)
        exact Or.inr ⟨files, next, between, others, rfl, rfl, hothers⟩

end Several

/-- Following several entries leads to no other states, and the answer joins the lists given. -/
theorem Reached.followEach_run {lists : List (List Path)} {history : History}
    (h : Reached world plan lists session history) (entries : List Text) :
    ∃ answer later after more,
      (followEach world.surroundings plan entries session).run history =
        ((answer, later), after) ∧
      Reached world plan (lists ++ more) later after ∧
      session.visited <+: later.visited ∧ ∀ files, answer = .ok files → files = more.flatten := by
  induction entries generalizing lists session history with
  | nil =>
    refine ⟨.ok [], session, history, [], rfl, (List.append_nil lists).symm ▸ h, ?_, ?_⟩
    · exact List.prefix_refl _
    · rintro files ⟨⟩
      rfl
  | cons entry entries ih =>
    obtain ⟨answer, later, after, hrun, hnext, hgrown⟩ := h.follow_run entry
    cases answer with
    | error trouble =>
      exact ⟨.error trouble, later, after, [], followEach_cons_error hrun entries, hnext, hgrown,
        nofun⟩
    | ok files =>
      obtain ⟨answer, last, final, more, hmore, hreached, hlast, hall⟩ := ih hnext
      refine ⟨answer.map (files ++ ·), last, final, files :: more, followEach_cons hrun hmore, ?_,
        hgrown.trans hlast, ?_⟩
      · rw [List.append_assoc] at hreached
        exact hreached
      · intro result hresult
        cases answer with
        | error trouble => cases hresult
        | ok others =>
          cases hresult
          rw [hall others rfl]
          rfl

/-- In a state that a session comes to, following all entries is following each of them: no file
comes twice that would have to be dropped. -/
theorem Reached.followAll_eq {lists : List (List Path)} {history : History}
    (h : Reached world plan lists session history) (entries : List Text) :
    (followAll world.surroundings plan entries session).run history =
      (followEach world.surroundings plan entries session).run history := by
  obtain ⟨answer, later, after, more, hrun, hreached, -, hall⟩ := h.followEach_run entries
  rw [followAll, run_bind, hrun]
  cases answer with
  | error trouble => rfl
  | ok files =>
    have hnodup : files.Nodup := by
      obtain ⟨ha, hlists, -⟩ := hreached.invariant
      rw [hall files rfl]
      rw [List.flatten_append] at hlists
      exact ((List.sublist_append_right _ _).trans hlists).nodup ha.nodup
    change ((Except.ok files.eraseDups, later), after) = _
    rw [eraseDups_of_nodup hnodup]

end SourceLoom.Traversal
