import Mathlib.Data.Set.Card
import SourceLoom.Proofs.Traversal.Refusals

/-!
# Every loop comes to an end

On a disk a loop may go on queueing files while it takes them. What is left for it is measured by
the regular files that were not visited yet together with the files in the queue. A step takes one
file from the queue, and what it queues are regular files that are visited from then on, so it
lowers the measure by one, whichever way the imports go. Hence every loop empties its queue, and
all loops of a session together take no more files than there are regular ones.
-/

namespace SourceLoom.Traversal

open Reference BreadthFirst

namespace Disk

variable (disk : Disk)

/-- The normal paths of the regular files of a disk. -/
def regular : Set Path := {path | path.IsNormal ∧ disk.isFile path = .ok true}

/-- The regular files are finitely many. -/
theorem regular_finite : disk.regular.Finite :=
  disk.files.finite_toSet.subset fun path h => disk.mem_files path h.1 h.2

/-- A session reckons with all of them. -/
theorem ncard_regular_le : disk.regular.ncard ≤ disk.fileCount := by
  have hsubset : disk.regular ⊆ disk.files := fun path h => disk.mem_files path h.1 h.2
  have hcard := Set.ncard_le_ncard hsubset disk.files.finite_toSet
  rw [Set.ncard_coe_finset] at hcard
  exact hcard.trans disk.card_files_le

/-- The number of regular files that are not among the visited ones. -/
noncomputable def unvisited (visited : List Path) : Nat :=
  (disk.regular \ {file | file ∈ visited}).ncard

/-- What a loop has left to do: the regular files that were not visited, and those that are
queued. -/
noncomputable def pending (search : Search) : Nat :=
  disk.unvisited search.session.visited + search.queue.length

/-- No more files are left than there are. -/
theorem unvisited_le (visited : List Path) : disk.unvisited visited ≤ disk.regular.ncard :=
  Set.ncard_le_ncard Set.sdiff_subset disk.regular_finite

variable {disk}

/-- Each regular file that is newly visited makes one less of those left. -/
theorem unvisited_append {visited new : List Path} (hnodup : (visited ++ new).Nodup)
    (hnew : ∀ file ∈ new, file ∈ disk.regular) :
    disk.unvisited (visited ++ new) + new.length = disk.unvisited visited := by
  obtain ⟨-, hdistinct, hapart⟩ := List.nodup_append.mp hnodup
  have hcard : {file | file ∈ new}.ncard = new.length := by
    have hcoe : {file | file ∈ new} = (new.toFinset : Set Path) := by
      ext file
      simp only [Set.mem_ofPred_eq, List.coe_toFinset]
    rw [hcoe, Set.ncard_coe_finset, List.toFinset_card_of_nodup hdistinct]
  have hleft : disk.regular \ {file | file ∈ visited ++ new} =
      (disk.regular \ {file | file ∈ visited}) \ {file | file ∈ new} := by
    ext file
    simp only [Set.mem_sdiff, Set.mem_ofPred_eq, List.mem_append, not_or, and_assoc]
  have hsubset : {file | file ∈ new} ⊆ disk.regular \ {file | file ∈ visited} :=
    fun file hfile => ⟨hnew file hfile, fun hold => hapart file hold file hfile rfl⟩
  have hfinite : (disk.regular \ {file | file ∈ visited}).Finite :=
    disk.regular_finite.subset Set.sdiff_subset
  rw [unvisited, unvisited, hleft, ← hcard,
    Set.ncard_sdiff_add_ncard_of_subset hsubset hfinite]

variable {plan : Plan} {root : Option Path} {search final : Search}

/-- A step of a loop lowers what is left by one. -/
theorem pending_after (ha : search.Aligned) {file : Path} {depth : Nat}
    {queue : List (Path × Nat)} (hq : search.queue = (file, depth) :: queue) {sight : Sight}
    (hsees : disk.world.Sees plan root file depth sight) :
    disk.pending ({ search with queue }.after file depth sight) + 1 = disk.pending search := by
  have hd := ha.depth_eq (file, depth) (by rw [hq]; exact List.mem_cons_self)
  obtain ⟨-, hqueue, hvisited, -⟩ := after_shape { search with queue } ha.visited_eq hd sight
  have hregular : ∀ target ∈ fresh search.session.visited sight.targets,
      target ∈ disk.regular := by
    intro target htarget
    obtain ⟨hnormal, history, hseen⟩ := hsees.targets_isNormal (mem_fresh.mp htarget).1
    exact ⟨hnormal, hseen⟩
  have hleft := unvisited_append (append_fresh_nodup ha.nodup sight.targets) hregular
  rw [pending, pending, hqueue, hvisited, hq, List.length_append, List.length_map,
    List.length_cons, ← hleft]
  dsimp only
  omega

/-- The steps of a run lower what is left by their number. -/
theorem pending_run {steps : List Step} (h : disk.world.Runs plan root search steps final)
    (ha : search.Aligned) : disk.pending final + steps.length = disk.pending search := by
  induction h with
  | rest search => rfl
  | @take search final file depth queue sight steps hq hsees hruns ih =>
    have hstep := pending_after ha hq hsees
    have hrest := ih (ha.after hq sight)
    rw [List.length_cons]
    omega

/-- A loop that begins at a new file has the regular files left that were not visited. -/
theorem pending_start {session : Session} {file : Path} (ha : session.Aligned)
    (hnew : file ∉ session.visited) (hfile : file ∈ disk.regular) :
    disk.pending (Search.start session file) = disk.unvisited session.visited := by
  obtain ⟨hvisited, -⟩ := start_shape ha hnew
  have hnodup : (session.visited ++ [file]).Nodup := hvisited ▸ (ha.start hnew).nodup
  have hone : ∀ other ∈ [file], other ∈ disk.regular := by
    intro other hother
    rw [List.mem_singleton.mp hother]
    exact hfile
  rw [pending, hvisited]
  exact unvisited_append hnodup hone

/-- A run that may take as many files as are left empties the queue. -/
theorem queue_eq_nil_of_over {steps : List Step} {limit : Nat}
    (h : disk.world.Runs plan root search steps final) (ha : search.Aligned)
    (hlimit : disk.pending search ≤ limit) (hover : final.queue = [] ∨ steps.length = limit) :
    final.queue = [] := by
  rcases hover with hq | hlength
  · exact hq
  · have hleft := pending_run h ha
    rw [pending] at hleft
    exact List.eq_nil_of_length_eq_zero (by omega)

/-- The loop of an entry empties its queue, and so the limit of the session is not met. -/
theorem exists_emptied (disk : Disk) (plan : Plan) {session : Session} {entry : Text}
    (ha : session.Aligned) (hnew : disk.place entry ∉ session.visited)
    (hfile : disk.isFile (disk.place entry) = .ok true)
    (hroot : ∀ directory ∈ root, directory.IsClean) (history : History) :
    ∃ steps final later, disk.world.Proceeds plan root
        (Search.start session (disk.place entry)) history steps final later ∧
      final.queue = [] ∧ steps.length ≤ disk.fileCount ∧
      steps.length + disk.unvisited final.session.visited = disk.unvisited session.visited := by
  have hnormal := start_queue_isNormal disk.world session entry
  have hstart := ha.start hnew
  have hpending := pending_start ha hnew ⟨disk.place_isNormal entry, hfile⟩
  obtain ⟨steps, final, later, hproceeds, hover, hle⟩ :=
    exists_proceeds disk.world plan hroot disk.fileCount hstart hnormal history
  have hruns := hproceeds.runs hroot hstart hnormal
  have hlimit : disk.pending (Search.start session (disk.place entry)) ≤ disk.fileCount := by
    rw [hpending]
    exact (disk.unvisited_le session.visited).trans disk.ncard_regular_le
  have hempty := queue_eq_nil_of_over hruns hstart hlimit hover
  have hleft := pending_run hruns hstart
  rw [hpending, pending, hempty, List.length_nil] at hleft
  exact ⟨steps, final, later, hproceeds, hempty, hle, by omega⟩

end Disk

/-- Entries are followed one after the other, and each loop that begins goes on until its queue is
empty. The steps are those of all loops. -/
inductive World.Drains (world : World) (plan : Plan) : List Text → Session → History →
    Except Trouble (List Path) → Session → List Step → History → Prop
  /-- No entry is left. -/
  | done (session : Session) (history : History) :
      Drains world plan [] session history (.ok []) session [] history
  /-- An entry is refused, and no loop begins. -/
  | refused {entry : Text} {entries : List Text} {session next last : Session}
      {history between after : History} {answer : Except Trouble (List Path)} {steps : List Step} :
      world.Refuses history session entry →
      (follow world.surroundings plan entry session).run history = ((.ok [], next), between) →
      Drains world plan entries next between answer last steps after →
      Drains world plan (entry :: entries) session history answer last steps after
  /-- The root of the project of an entry cannot be sought, and nothing more is followed. -/
  | rootless {entry : Text} {entries : List Text} {session : Session} {history asked : History}
      {fault : Files.Fault} :
      world.Admits history (world.place entry) → world.place entry ∉ session.visited →
      (findRoot plan.conventions world.surroundings.holds world.cwd (world.place entry)).run.run
        (admitted history (world.place entry)) = (.error fault, asked) →
      Drains world plan (entry :: entries) session history (.error (.files fault)) session [] asked
  /-- The loop that begins at an entry empties its queue. -/
  | emptied {entry : Text} {entries : List Text} {session last : Session} {root : Option Path}
      {history asked between after : History} {final : Search} {first steps : List Step}
      {answer : Except Trouble (List Path)} :
      world.Admits history (world.place entry) → world.place entry ∉ session.visited →
      (findRoot plan.conventions world.surroundings.holds world.cwd (world.place entry)).run.run
        (admitted history (world.place entry)) = (.ok root, asked) →
      world.Proceeds plan root (Search.start session (world.place entry))
        (asked ++ [.told (.rootSought (world.place entry) root)]) first final between →
      final.queue = [] →
      Drains world plan entries final.session between answer last steps after →
      Drains world plan (entry :: entries) session history (answer.map (final.found ++ ·)) last
        (first ++ steps) after

/-- On a disk every loop empties its queue. The loops take one file for each that is newly
visited. -/
theorem Disk.followEach_drains (disk : Disk) (plan : Plan) (entries : List Text)
    {session : Session} (ha : session.Aligned) (history : History) :
    ∃ answer later steps after,
      disk.world.Drains plan entries session history answer later steps after ∧
        (followEach disk.surroundings plan entries session).run history =
          ((answer, later), after) ∧
        steps.length + disk.unvisited later.visited = disk.unvisited session.visited := by
  induction entries generalizing session history with
  | nil => exact ⟨.ok [], session, [], history, .done session history, rfl, Nat.zero_add _⟩
  | cons entry entries ih =>
    obtain ⟨answer, next, steps, between, hserves, hrun⟩ :=
      follow_serves disk.world plan ha entry history
    by_cases hrefuses : disk.world.Refuses history session entry
    · obtain ⟨rfl, -⟩ := hserves.of_refuses hrefuses
      obtain ⟨hvisited, -, -⟩ := hserves.idle (Or.inr hrefuses)
      obtain ⟨hnext, -⟩ := (hserves.follows ha).extends ha
      obtain ⟨answer, last, more, after, hdrains, hothers, hleft⟩ := ih hnext between
      rw [hvisited] at hleft
      refine ⟨_, last, more, after, .refused hrefuses hrun hdrains, ?_, hleft⟩
      have hall := followEach_cons hrun hothers
      cases answer <;> exact hall
    · obtain ⟨hadmits, hnew⟩ := not_or.mp hrefuses
      rw [not_not] at hadmits
      cases hfound : (findRoot plan.conventions disk.world.surroundings.holds disk.world.cwd
          (disk.world.place entry)).run.run (admitted history (disk.world.place entry)) with
      | mk found asked =>
        cases found with
        | error fault =>
          have hfailed := follow_rootless hadmits hnew hfound
          exact ⟨_, session, [], asked, .rootless hadmits hnew hfound,
            followEach_cons_error hfailed entries, Nat.zero_add _⟩
        | ok root =>
          obtain ⟨first, final, mid, hproceeds, hempty, hle, hfirst⟩ :=
            exists_emptied disk plan ha hnew hadmits.isFile (findRoot_place_isClean hfound)
              (asked ++ [.told (.rootSought (disk.world.place entry) root)])
          have hloop := follow_searched hadmits hnew hfound
            (hproceeds.run_of_over (Or.inl hempty) hle)
          have hfinal := (hproceeds.runs (findRoot_place_isClean hfound) (ha.start hnew)
            (start_queue_isNormal disk.world session entry)).extends (ha.start hnew)
          obtain ⟨answer, last, more, after, hdrains, hothers, hleft⟩ := ih hfinal.1.toAligned mid
          refine ⟨_, last, first ++ more, after,
            .emptied hadmits hnew hfound hproceeds hempty hdrains,
            followEach_cons hloop hothers, ?_⟩
          rw [List.length_append]
          omega

/-- In every state that a session comes to, whatever was around it: following all of some entries
on a disk comes to an end. Every loop goes on until its queue is empty, and all of them together
take at most as many files from their queues as there are normal paths of regular files. -/
theorem Reached.followAll_drains {world : World} {plan : Plan} {lists : List (List Path)}
    {session : Session} {history : History} (h : Reached world plan lists session history)
    (disk : Disk) (entries : List Text) (since : History) :
    ∃ answer later steps after,
      (followAll disk.surroundings plan entries session).run since =
          ((answer.map List.eraseDups, later), after) ∧
        disk.world.Drains plan entries session since answer later steps after ∧
        steps.length ≤ disk.regular.ncard := by
  obtain ⟨answer, later, steps, after, hdrains, hrun, hleft⟩ :=
    disk.followEach_drains plan entries h.invariant.1 since
  have hall := disk.unvisited_le session.visited
  refine ⟨answer, later, steps, after, ?_, hdrains, by omega⟩
  rw [followAll, run_bind, hrun]
  rfl

/-- Two files that import each other, and the first one also itself. -/
def knot : Disk := .ofFiles [("a.js", "import './b';\nimport './a';"), ("b.js", "import '../w/a';")]

/-- Following both files of the knot, one of them under two spellings, comes to an end. -/
theorem followAll_drains_knot :
    ∃ answer later steps after,
      (followAll knot.surroundings {} ["a.js".toList, "/w/./b.js".toList, "../w/a.js".toList]
          {}).run [] = ((.ok [knot.place "a.js".toList, knot.place "b.js".toList], later), after) ∧
        knot.world.Drains {} ["a.js".toList, "/w/./b.js".toList, "../w/a.js".toList] {} [] answer
          later steps after ∧
        steps.length ≤ knot.regular.ncard := by
  have hfresh : Reached knot.world {} [] {} [] := .fresh
  obtain ⟨answer, later, steps, after, hrun, hdrains, hle⟩ :=
    hfresh.followAll_drains knot ["a.js".toList, "/w/./b.js".toList, "../w/a.js".toList] []
  have hfiles : ((followAll knot.surroundings {} ["a.js".toList, "/w/./b.js".toList,
      "../w/a.js".toList] {}).run []).1.1 =
        .ok [knot.place "a.js".toList, knot.place "b.js".toList] := by decide +kernel
  rw [hrun] at hfiles
  refine ⟨answer, later, steps, after, ?_, hdrains, hle⟩
  rw [hrun]
  exact congrArg (fun given => ((given, later), after)) hfiles

end SourceLoom.Traversal
