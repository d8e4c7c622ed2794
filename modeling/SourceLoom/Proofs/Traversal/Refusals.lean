import SourceLoom.Proofs.Traversal.Disk
import SourceLoom.Proofs.Traversal.TreeDisk

/-!
# Failed and refused entries

A call can fail for one reason: while the root of the project of its entry was sought, a place for
the marker could not be examined. All other faults only lead to something being skipped. Since the
root is sought before the session changes, a call that fails leaves the session as it was, and one
that refuses its entry adds a warning at most. Warnings are never read: whatever is recalled from
before, a session does the same. So what follows is not affected by such a call.
-/

namespace SourceLoom.Traversal

open Reference BreadthFirst

section Failing

variable {world : World} {plan : Plan} {lists : List (List Path)} {session : Session}
  {history : History}

/-- If following several entries fails, one of them was admitted and its root could not be sought,
and the session is as it was then. -/
theorem Reached.followEach_fault (h : Reached world plan lists session history)
    {entries : List Text} {trouble : Trouble} {later : Session} {after : History}
    (hrun : (followEach world.surroundings plan entries session).run history =
      ((.error trouble, later), after)) :
    ∃ entry ∈ entries, ∃ given earlier fault, trouble = .files fault ∧
      Reached world plan (lists ++ given) later earlier ∧
      world.Admits earlier (world.place entry) ∧
      world.rootOf plan.conventions (world.place entry)
        (admitted earlier (world.place entry)) = .error fault := by
  induction entries generalizing lists session history with
  | nil => cases hrun
  | cons entry entries ih =>
    rcases followEach_cons_cases hrun with ⟨cause, hcause, hfollow⟩ |
      ⟨files, next, between, others, hanswer, hfollow, hothers⟩
    · cases hcause
      obtain ⟨answer, later', steps, after', hserves, hfollow'⟩ :=
        follow_serves world plan h.invariant.1 entry history
      rw [hfollow] at hfollow'
      cases hfollow'
      cases hserves with
      | rootless hadmits _ hroot =>
        refine ⟨entry, List.mem_cons_self, [], history, _, rfl, ?_, hadmits,
          congrArg Prod.fst hroot⟩
        rw [List.append_nil]
        exact h
    · cases others with
      | ok more => cases hanswer
      | error cause =>
        cases hanswer
        obtain ⟨other, hmem, given, earlier, fault, htrouble, hreached, hfault⟩ :=
          ih (h.step hfollow) hothers
        rw [List.append_assoc] at hreached
        exact ⟨other, List.mem_cons_of_mem _ hmem, _, earlier, fault, htrouble, hreached, hfault⟩

/-- Following all entries comes to an answer, and no misuse comes up. It fails only if the root of
the project of an admitted entry cannot be sought, and the session is then as it was before that
entry. On a disk it gives the files if the root of the project of each entry that is a regular file
can be sought. -/
theorem Reached.followAll_answers (h : Reached world plan lists session history)
    (entries : List Text) :
    ∃ answer later after more,
      (followAll world.surroundings plan entries session).run history = ((answer, later), after) ∧
        Reached world plan (lists ++ more) later after ∧
        (∀ files, answer = .ok files → files = more.flatten) ∧
        (∀ trouble, answer = .error trouble → ∃ entry ∈ entries, ∃ given earlier fault,
          trouble = .files fault ∧ Reached world plan (lists ++ given) later earlier ∧
            world.Admits earlier (world.place entry) ∧
            world.rootOf plan.conventions (world.place entry)
              (admitted earlier (world.place entry)) = .error fault) ∧
        ∀ disk : Disk, world = disk.world →
          (∀ entry ∈ entries, disk.isFile (disk.place entry) = .ok true →
            ∃ root, disk.rootOf plan.conventions (disk.place entry) = .ok root) →
          ∃ files, answer = .ok files := by
  obtain ⟨answer, later, after, more, hrun, hreached, -, hall⟩ := h.followEach_run entries
  refine ⟨answer, later, after, more, h.followAll_eq entries ▸ hrun, hreached, hall, ?_, ?_⟩
  · rintro trouble rfl
    exact h.followEach_fault hrun
  · rintro disk rfl hroots
    cases answer with
    | ok files => exact ⟨files, rfl⟩
    | error trouble =>
      obtain ⟨entry, hmem, -, earlier, fault, -, -, hadmits, hroot⟩ := h.followEach_fault hrun
      obtain ⟨root, hsought⟩ := hroots entry hmem hadmits.isFile
      cases hroot.symm.trans ((disk.world_findRoot _ _ _).trans hsought)

/-- In the chain an entry that is missing does not keep another from being followed. -/
theorem followAll_answers_chain :
    ∃ files later after,
      (followAll chain.world.surroundings {} ["gone.js".toList, "a.js".toList] {}).run [] =
          ((.ok files, later), after) ∧
        files = [chain.place "a.js".toList, chain.place "b.js".toList,
          chain.place "c.js".toList] ∧
        later.warnings = [.entryMissing "gone.js".toList] := by
  have hfresh : Reached chain.world {} [] {} [] := .fresh
  have hroots : ∀ entry ∈ ["gone.js".toList, "a.js".toList],
      chain.rootOf {} (chain.place entry) = .ok none := by decide +kernel
  obtain ⟨answer, later, after, more, hrun, -, -, -, hanswers⟩ :=
    hfresh.followAll_answers ["gone.js".toList, "a.js".toList]
  obtain ⟨files, rfl⟩ := hanswers chain rfl fun entry hmem _ => ⟨none, hroots entry hmem⟩
  have hcall : ∀ call, call = (followAll chain.world.surroundings {}
      ["gone.js".toList, "a.js".toList] {}).run [] →
      call.1.1 = .ok [chain.place "a.js".toList, chain.place "b.js".toList,
        chain.place "c.js".toList] ∧ call.1.2.warnings = [.entryMissing "gone.js".toList] := by
    intro call h
    rw [h]
    decide +kernel
  obtain ⟨hfiles, hwarnings⟩ := hcall ((.ok files, later), after) hrun.symm
  exact ⟨files, later, after, hrun, Except.ok.inj hfiles, hwarnings⟩

/-- A disk with one file in a directory where the marker is a link to where it cannot be
examined. -/
def hiddenMarker : Disk := .ofTree
  { root := .directory .ofDirectory
      [("w".toList, .directory .ofDirectory
        [("a.js".toList, .file .ofFile []), ("package.json".toList, .link "/p/x".toList)]),
        ("p".toList, .directory (.ofDigit 0) [])]
    cwd := workplace }
  workplace_isNormal

/-- The file is not given: following it fails. -/
theorem followAll_hiddenMarker : ((followAll hiddenMarker.surroundings {} ["/w/a.js".toList] {}).run []).1 =
    (.error (.files (.failed .denied (hiddenMarker.place "package.json".toList))), {}) := by
  decide +kernel

/-- A marker that cannot be examined may keep a session from giving any files. -/
theorem exists_session_stopped :
    ¬ ∀ (disk : Disk) (plan : Plan) (entries : List Text),
      (∀ entry ∈ entries, (Path.ofText entry).isAbsolute = true) →
      ∃ files, ((followAll disk.surroundings plan entries {}).run []).1.1 = .ok files := by
  intro h
  have habsolute : ∀ entry ∈ ["/w/a.js".toList], (Path.ofText entry).isAbsolute = true := by
    decide +kernel
  obtain ⟨files, hfiles⟩ := h hiddenMarker {} ["/w/a.js".toList] habsolute
  rw [followAll_hiddenMarker] at hfiles
  cases hfiles

end Failing

/-- An entry is refused: it is not seen to be a regular file, or it was visited before. -/
def World.Refuses (world : World) (history : History) (session : Session) (entry : Text) : Prop :=
  ¬ world.Admits history (world.place entry) ∨ world.place entry ∈ session.visited

/-- The session with warnings from before its own. -/
def Session.recall (session : Session) (earlier : List Warning) : Session :=
  { session with warnings := earlier ++ session.warnings }

/-- The search in such a session. -/
def Search.recall (search : Search) (earlier : List Warning) : Search :=
  { search with session := search.session.recall earlier }

section Recalling

variable (earlier : List Warning)

/-- A session recalls its own warnings. -/
theorem Session.recall_warnings {session later : Session}
    (hvisited : later.visited = session.visited) (hgraph : later.graph = session.graph) :
    { session with warnings := [] }.recall later.warnings = later := by
  obtain ⟨visited, graph, warnings⟩ := later
  cases hvisited
  cases hgraph
  exact congrArg (Session.mk _ _) (List.append_nil warnings)

/-- One warning more comes after those recalled. -/
theorem Session.recall_warned (session : Session) (warning : Warning) :
    { session.recall earlier with warnings := (session.recall earlier).warnings ++ [warning] } =
      { session with warnings := session.warnings ++ [warning] }.recall earlier :=
  congrArg (Session.mk _ _) (List.append_assoc earlier session.warnings [warning])

/-- Findings are accounted for in the same way. -/
theorem account_recall (file : Path) (findings : List (Text × Finding)) (children : List Path)
    (session : Session) :
    account file findings children (session.recall earlier) =
      ((account file findings children session).1,
        (account file findings children session).2.recall earlier) := by
  induction findings generalizing children session with
  | nil => rfl
  | cons finding findings ih =>
    obtain ⟨reference, _ | fault | _ | target⟩ := finding
    · exact ih children { session with graph := session.graph.addExternal file reference }
    · rw [account, Session.recall_warned]
      exact ih children _
    · exact ih children { session with graph := session.graph.addMissing file reference }
    · exact ih _ { session with graph := session.graph.addEdge file target }

/-- Files are queued in the same way. -/
theorem enqueueAll_recall (search : Search) (files : List Path) (depth : Nat) :
    (search.recall earlier).enqueueAll files depth =
      (search.enqueueAll files depth).recall earlier := by
  induction files generalizing search with
  | nil => rfl
  | cons file files ih => exact ih (search.enqueue file depth)

/-- A step does the same. -/
theorem after_recall (search : Search) (file : Path) (depth : Nat) (sight : Sight) :
    (search.recall earlier).after file depth sight =
      (search.after file depth sight).recall earlier := by
  have hwarned : ∀ (search : Search) (warning : Warning),
      (search.recall earlier).warned warning = (search.warned warning).recall earlier := by
    intro search warning
    have hsession := search.session.recall_warned earlier warning
    exact congrArg (fun session => { search with session }) hsession
  cases sight with
  | barred fault => exact hwarned search _
  | gone => rfl
  | atBound => rfl
  | unread fault => exact hwarned (search.keep file) _
  | read text findings =>
    have haccount := account_recall earlier file findings [] search.session
    have hqueued := enqueueAll_recall earlier
      { search.keep file with session := (account file findings [] search.session).2 }
      (account file findings [] search.session).1 (depth + 1)
    refine Eq.trans ?_ hqueued
    exact congrArg (fun accounted : List Path × Session => Search.enqueueAll
      { search.keep file with session := accounted.2 } accounted.1 (depth + 1)) haccount

variable {world : World} {plan : Plan} {history after : History} {entry : Text}
  {session later : Session}

/-- A run takes the same steps. -/
theorem World.Proceeds.recall {root : Option Path} {search final : Search} {steps : List Step}
    (h : world.Proceeds plan root search history steps final after) :
    world.Proceeds plan root (search.recall earlier) history steps (final.recall earlier) after := by
  induction h with
  | rest search history => exact .rest _ history
  | @take search _ _ _ _ file depth queue sight _ hq hmeets _ ih =>
    have hstep := after_recall earlier { search with queue } file depth sight
    exact .take hq hmeets (hstep ▸ ih)

/-- A call comes to the same. -/
theorem follow_recall {answer : Except Trouble (List Path)} (ha : session.Aligned)
    (h : (follow world.surroundings plan entry session).run history = ((answer, later), after)) :
    (follow world.surroundings plan entry (session.recall earlier)).run history =
      ((answer, later.recall earlier), after) := by
  by_cases hadmits : world.Admits history (world.place entry)
  · by_cases hold : world.place entry ∈ session.visited
    · have hrecalled : world.place entry ∈ (session.recall earlier).visited := hold
      cases h.symm.trans (follow_known hadmits plan hold)
      exact follow_known hadmits plan hrecalled
    · have hnew : world.place entry ∉ (session.recall earlier).visited := hold
      cases hfound : (findRoot plan.conventions world.surroundings.holds world.cwd
        (world.place entry)).run.run (admitted history (world.place entry)) with
      | mk found asked =>
        cases found with
        | error fault =>
          cases h.symm.trans (follow_rootless hadmits hold hfound)
          exact follow_rootless hadmits hnew hfound
        | ok root =>
          obtain ⟨steps, final, _, hproceeds, hover, hle⟩ :=
            exists_proceeds world plan (findRoot_place_isClean hfound) world.fileCount
              (ha.start hold) (start_queue_isNormal world session entry)
              (asked ++ [.told (.rootSought (world.place entry) root)])
          cases h.symm.trans
            (follow_searched hadmits hold hfound (hproceeds.run_of_over hover hle))
          have hrecalled := (hproceeds.recall earlier).run_of_over hover hle
          exact follow_searched hadmits hnew hfound hrecalled
  · obtain ⟨warning, between, -, -, hrun⟩ := follow_refused plan hadmits
    cases h.symm.trans (hrun session)
    rw [hrun, Session.recall_warned]

end Recalling

section Later

variable {m : Type → Type} [Monad m]

/-- Follows the imports of each entry in turn, whatever comes of those before it. -/
def followOn (around : Surroundings m) (plan : Plan) : List Text → Session →
    m (List (Except Trouble (List Path)) × Session)
  | [], session => pure ([], session)
  | entry :: entries, session => do
    let (answer, session) ← follow around plan entry session
    let (answers, session) ← followOn around plan entries session
    return (answer :: answers, session)

end Later

/-- Any further calls come to the same. -/
theorem followOn_recall (world : World) (plan : Plan) {session : Session} (ha : session.Aligned)
    (entries : List Text) (history : History) :
    ∃ answers, ∃ later : Session, ∃ after, ∀ earlier,
      (followOn world.surroundings plan entries (session.recall earlier)).run history =
        ((answers, later.recall earlier), after) := by
  induction entries generalizing session history with
  | nil => exact ⟨[], session, history, fun earlier => rfl⟩
  | cons entry entries ih =>
    obtain ⟨answer, later, steps, after, hfollows, -, hrun⟩ := follow_run world plan ha entry history
    obtain ⟨answers, last, final, hall⟩ := ih (hfollows.extends ha).1 after
    refine ⟨answer :: answers, last, final, fun earlier => ?_⟩
    rw [followOn, run_bind, follow_recall earlier ha hrun]
    dsimp only
    rw [run_bind, hall earlier]
    rfl

/-- On a disk an entry gives nothing only if it is no regular file or was visited before. -/
theorem Disk.Follows.of_nothing {disk : Disk} {plan : Plan} {entry : Text}
    {session later : Session} {answer : Except Trouble (List Path)} {reached : List (Path × Nat)}
    (h : disk.Follows plan entry session answer later reached) (ha : session.Aligned)
    (hanswer : answer = .ok []) :
    disk.isFile (disk.place entry) ≠ .ok true ∨ disk.place entry ∈ session.visited := by
  cases h with
  | skipped hskip _ _ => exact hskip
  | rootless _ _ _ => cases hanswer
  | searched hfile hnew hroot _ _ =>
    have hready := disk.ready_place ha.nodup hnew hfile hroot
    have hself := (hready.mem_taken_fst_iff plan _).mpr ⟨0, fun limit _ => Nat.zero_le limit, .here⟩
    rw [Except.ok.inj hanswer] at hself
    exact absurd hself List.not_mem_nil

/-- A call that fails or refuses its entry takes no files, and the visited files and the graph
stay. -/
theorem World.Serves.idle {world : World} {plan : Plan} {entry : Text} {session later : Session}
    {history after : History} {answer : Except Trouble (List Path)} {steps : List Step}
    (h : world.Serves plan entry session history answer later steps after)
    (hcause : (∃ trouble, answer = .error trouble) ∨ world.Refuses history session entry) :
    later.visited = session.visited ∧ later.graph = session.graph ∧
      reports after = reports history := by
  have hreports := h.adds.reports_eq
  cases h with
  | refused _ _ _ => exact ⟨rfl, rfl, hreports.trans (List.append_nil _)⟩
  | known _ _ => exact ⟨rfl, rfl, hreports.trans (List.append_nil _)⟩
  | rootless _ _ _ => exact ⟨rfl, rfl, hreports.trans (List.append_nil _)⟩
  | searched hadmits hnew _ _ _ =>
    rcases hcause with ⟨trouble, htrouble⟩ | hrefused | hold
    · cases htrouble
    · exact absurd hadmits hrefused
    · exact absurd hold hnew

/-- A call that fails leaves the session as it is. -/
theorem World.Serves.eq_of_error {world : World} {plan : Plan} {entry : Text}
    {session later : Session} {history after : History} {trouble : Trouble} {steps : List Step}
    (h : world.Serves plan entry session history (.error trouble) later steps after) :
    later = session := by
  cases h with
  | rootless _ _ _ => rfl

/-- A call that refuses its entry gives nothing and adds one warning at most. -/
theorem World.Serves.of_refuses {world : World} {plan : Plan} {entry : Text}
    {session later : Session} {history after : History} {answer : Except Trouble (List Path)}
    {steps : List Step} (h : world.Serves plan entry session history answer later steps after)
    (hrefuses : world.Refuses history session entry) :
    answer = .ok [] ∧
      ∃ warning : Option Warning, later.warnings = session.warnings ++ warning.toList := by
  cases h with
  | @refused _ warning _ _ _ => exact ⟨rfl, some warning, rfl⟩
  | known _ _ => exact ⟨rfl, none, (List.append_nil _).symm⟩
  | rootless hadmits hnew _ => exact absurd hrefuses (not_or.mpr ⟨not_not.mpr hadmits, hnew⟩)
  | searched hadmits hnew _ _ _ =>
    exact absurd hrefuses (not_or.mpr ⟨not_not.mpr hadmits, hnew⟩)

/-- In every state that a session comes to, and whatever is around it then: a call that fails
leaves the session as it is and reports nothing; a call that refuses its entry gives nothing,
reports nothing and adds one warning at most. On a disk nothing is given for no other reason.
After such a call any further calls, whatever is around them, come to what they come to without
it. -/
theorem Reached.refusal_harmless {world : World} {plan : Plan} {lists : List (List Path)}
    {session : Session} {history : History} (h : Reached world plan lists session history)
    (around : World) (entry : Text) :
    ∃ answer later after,
      (follow around.surroundings plan entry session).run history = ((answer, later), after) ∧
        (∀ trouble, answer = .error trouble →
          later = session ∧ reports after = reports history) ∧
        (around.Refuses history session entry →
          answer = .ok [] ∧ later.visited = session.visited ∧ later.graph = session.graph ∧
            reports after = reports history ∧
            ∃ warning : Option Warning, later.warnings = session.warnings ++ warning.toList) ∧
        (∀ disk : Disk, around = disk.world → answer = .ok [] →
          around.Refuses history session entry) ∧
        ((∃ trouble, answer = .error trouble) ∨ around.Refuses history session entry →
          ∀ (elsewhere : World) (entries : List Text) (since : History),
            ∃ answers, ∃ last : Session, ∃ final,
              (followOn elsewhere.surroundings plan entries later).run since =
                  ((answers, last.recall later.warnings), final) ∧
                (followOn elsewhere.surroundings plan entries session).run since =
                  ((answers, last.recall session.warnings), final)) := by
  have ha := h.invariant.1
  obtain ⟨answer, later, steps, after, hserves, hrun⟩ := follow_serves around plan ha entry history
  refine ⟨answer, later, after, hrun, ?_, ?_, ?_, ?_⟩
  · rintro trouble rfl
    exact ⟨hserves.eq_of_error, (hserves.idle (Or.inl ⟨trouble, rfl⟩)).2.2⟩
  · intro hrefuses
    obtain ⟨hvisited, hgraph, hreports⟩ := hserves.idle (Or.inr hrefuses)
    obtain ⟨hanswer, hwarnings⟩ := hserves.of_refuses hrefuses
    exact ⟨hanswer, hvisited, hgraph, hreports, hwarnings⟩
  · rintro disk rfl hanswer
    refine (((hserves.follows ha).of_disk ha).of_nothing ha hanswer).imp_left ?_
    exact fun hfile hadmits => hfile hadmits.isFile
  · intro hcause elsewhere entries since
    obtain ⟨hvisited, hgraph, -⟩ := hserves.idle hcause
    have hbare : Session.Aligned { session with warnings := [] } := ⟨ha.visited_eq, ha.nodup⟩
    obtain ⟨answers, last, final, hall⟩ := followOn_recall elsewhere plan hbare entries since
    refine ⟨answers, last, final, ?_, ?_⟩
    · have hlater := hall later.warnings
      rw [Session.recall_warnings hvisited hgraph] at hlater
      exact hlater
    · have hsession := hall session.warnings
      rw [Session.recall_warnings rfl rfl] at hsession
      exact hsession

/-- A call whose entry is missing leaves a warning; when the entry is there, it is given. A call
that fails leaves nothing. -/
theorem refusal_harmless_chain :
    (∃ later after, (follow chain.world.surroundings {} "gone.js".toList {}).run [] =
        ((.ok [], later), after) ∧ later.visited = [] ∧ reports after = [] ∧
      ∃ last final, (followOn (Disk.ofFiles [("gone.js", "")]).world.surroundings {}
          ["gone.js".toList] later).run after =
        (([.ok [chain.place "gone.js".toList]], Session.recall last later.warnings), final)) ∧
    ∃ later after, (follow hiddenMarker.world.surroundings {} "a.js".toList {}).run [] =
      ((.error (.files (.failed .denied (hiddenMarker.place "package.json".toList))), later), after) ∧
        later = {} ∧ reports after = [] := by
  constructor
  · have hfresh : Reached chain.world {} [] {} [] := .fresh
    have hrefuses : chain.world.Refuses [] {} "gone.js".toList :=
      Or.inl fun hadmits => absurd hadmits.holds (by decide +kernel)
    obtain ⟨answer, later, after, hrun, -, hleaves, -, hthen⟩ :=
      hfresh.refusal_harmless chain.world "gone.js".toList
    obtain ⟨rfl, hvisited, -, hreports, -⟩ := hleaves hrefuses
    obtain ⟨answers, last, final, hlater, hnow⟩ := hthen (Or.inr hrefuses)
      (Disk.ofFiles [("gone.js", "")]).world ["gone.js".toList] after
    have hafter : after = ((follow chain.world.surroundings {} "gone.js".toList {}).run []).2 := by
      rw [hrun]
    have hanswers : ((followOn (Disk.ofFiles [("gone.js", "")]).world.surroundings {}
        ["gone.js".toList] {}).run after).1.1 = [.ok [chain.place "gone.js".toList]] := by
      rw [hafter]
      decide +kernel
    rw [hnow] at hanswers
    cases hanswers
    exact ⟨later, after, hrun, hvisited, hreports, last, final, hlater⟩
  · have hfresh : Reached hiddenMarker.world {} [] {} [] := .fresh
    obtain ⟨answer, later, after, hrun, hleaves, -⟩ :=
      hfresh.refusal_harmless hiddenMarker.world "a.js".toList
    have hanswer : answer =
        .error (.files (.failed .denied (hiddenMarker.place "package.json".toList))) := by
      have hcall : ((follow hiddenMarker.world.surroundings {} "a.js".toList {}).run []).1.1 =
          .error (.files (.failed .denied (hiddenMarker.place "package.json".toList))) := by
        decide +kernel
      rw [hrun] at hcall
      exact hcall
    rw [hanswer] at hrun
    exact ⟨later, after, hrun, hleaves _ hanswer⟩

end SourceLoom.Traversal
