import SourceLoom.Proofs.Traversal.Disk
import SourceLoom.Proofs.Traversal.TreeDisk

/-!
# Whole sessions

Over a whole session every file is given and read once at most, whatever the world does in the
meantime. The lists given are what is left of the graph when the files that vanished are dropped;
on a disk they are the graph.
-/

namespace SourceLoom.Traversal

open Reference BreadthFirst

variable {world : World} {plan : Plan} {lists : List (List Path)} {session : Session}
  {history : History}

/-- On a disk the lists given are the files of the graph. -/
theorem Reached.flatten_eq_files {disk : Disk} (h : Reached disk.world plan lists session history) :
    lists.flatten = session.graph.files := by
  induction h with
  | fresh => rfl
  | @step lists session later history after entry answer hbefore hrun ih =>
    obtain ⟨answer', later', reached, read, after', hfollows, -, -, hrun'⟩ :=
      disk.follow_run plan hbefore.invariant.1 entry history
    unfold Disk.surroundings at hrun'
    rw [hrun] at hrun'
    cases hrun'
    rw [List.flatten_append, ih]
    cases hfollows with
    | skipped _ _ hgraph =>
      rw [hgraph]
      exact List.append_nil _
    | rootless _ _ _ => exact List.append_nil _
    | searched _ _ _ _ hnodes =>
      rw [Graph.files, Graph.files, hnodes, List.map_append, List.map_map]
      exact congrArg _ (List.append_nil _)

/-- In every state that a session comes to, no file was given or read twice, and the visited files
are those of the graph, in which the files given come in their order; on a disk there are no
others. Every further call keeps the visited files and leads to such a state, and following all of
some entries is following each of them. -/
theorem Reached.visits_once (h : Reached world plan lists session history) :
    lists.flatten.Nodup ∧ (reads history).Nodup ∧
      session.visited = session.graph.files ∧ lists.flatten.Sublist session.graph.files ∧
      (∀ disk : Disk, world = disk.world → lists.flatten = session.graph.files) ∧
      (∀ entry, ∃ answer later after,
        (follow world.surroundings plan entry session).run history = ((answer, later), after) ∧
          session.visited <+: later.visited ∧
          Reached world plan (lists ++ answer.toOption.toList) later after) ∧
      ∀ entries, ∃ answer later after more,
        (followAll world.surroundings plan entries session).run history =
            ((answer, later), after) ∧
          (followEach world.surroundings plan entries session).run history =
            ((answer, later), after) ∧
          session.visited <+: later.visited ∧
          Reached world plan (lists ++ more) later after ∧
          ∀ files, answer = .ok files → files = more.flatten := by
  obtain ⟨halign, hlists, hreads⟩ := h.invariant
  refine ⟨hlists.nodup halign.nodup, hreads.nodup halign.nodup, halign.visited_eq,
    halign.visited_eq ▸ hlists, ?_, ?_, ?_⟩
  · rintro disk rfl
    exact h.flatten_eq_files
  · intro entry
    obtain ⟨answer, later, after, hrun, hreached, hgrown⟩ := h.follow_run entry
    exact ⟨answer, later, after, hrun, hgrown, hreached⟩
  · intro entries
    obtain ⟨answer, later, after, more, hrun, hreached, hgrown, hall⟩ := h.followEach_run entries
    refine ⟨answer, later, after, more, ?_, hrun, hgrown, hreached, hall⟩
    rw [h.followAll_eq, hrun]

/-- The chain of files, whose second one vanishes as soon as it was seen. -/
def fleeting : World where
  cwd := chain.cwd
  cwd_isNormal := chain.cwd_isNormal
  holds _ := chain.holds
  isFile history path :=
    if path = chain.place "b.js".toList ∧ (history.any fun
      | .isFile seen (.ok true) => seen = path
      | _ => false) then .ok false
    else chain.isFile path
  readText _ := chain.readText
  fileCount := chain.fileCount

/-- The first file is given, and the second, which vanished, only stays in the graph. -/
theorem visits_once_fleeting :
    ∃ lists session history, Reached fleeting {} lists session history ∧
      lists.flatten = [chain.place "a.js".toList] ∧ lists.flatten.Nodup ∧
      session.graph.files = [chain.place "a.js".toList, chain.place "b.js".toList] ∧
      session.visited = session.graph.files := by
  have hfresh : Reached fleeting {} [] {} [] := .fresh
  obtain ⟨answer, later, after, hrun, hreached, -⟩ := hfresh.follow_run "a.js".toList
  have hfound := hreached.visits_once
  refine ⟨_, later, after, hreached, ?_, hfound.1, ?_, hfound.2.2.1⟩
  · have hanswer : answer = ((follow fleeting.surroundings {} "a.js".toList {}).run []).1.1 := by
      rw [hrun]
    rw [hanswer]
    decide +kernel
  · have hlater : later = ((follow fleeting.surroundings {} "a.js".toList {}).run []).1.2 := by
      rw [hrun]
    rw [hlater]
    decide +kernel

end SourceLoom.Traversal
