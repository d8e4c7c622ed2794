import SourceLoom.Proofs.Traversal.Books
import SourceLoom.Proofs.Traversal.TreeDisk

/-!
# Depths

A file has a depth in the queue, in its report and in the graph. Whatever the world does, the queue
of a search goes over two depths at most, and a file in it has the same depth in the graph, where
it is imported by a file that was reported one level above. So the reports of a call come level by
level, and the graph explains each of them when it is made and ever after.
-/

namespace SourceLoom

namespace Graph

/-- A graph explains the depth of a file by what was reported before: the file has this depth, and
unless it is zero, a file that was reported one level above imports it. -/
structure Explains (graph : Graph) (before : List (Path × Nat)) (file : Path) (depth : Nat) :
    Prop where
  /-- The file has this depth. -/
  depth_eq : graph.depth? file = some (depth : Int)
  /-- A file one level above was reported and imports it. -/
  importer : ∀ above, depth = above + 1 →
    ∃ source, (source, above) ∈ before ∧ file ∈ graph.targets source

/-- What is explained stays so when the graph grows and more is reported. -/
theorem Explains.mono {graph later : Graph} {before more : List (Path × Nat)} {file : Path}
    {depth : Nat} (h : graph.Explains before file depth) (hgrows : graph.Grows later)
    (hmore : before ⊆ more) : later.Explains more file depth where
  depth_eq := hgrows.depth? h.depth_eq
  importer above habove := by
    obtain ⟨source, hmem, hedge⟩ := h.importer above habove
    exact ⟨source, hmore hmem, hgrows.holds source (.target file) hedge⟩

/-- Every file of a graph that is not at the top is imported by a file one level above. -/
def Layered (graph : Graph) : Prop :=
  ∀ file depth, graph.depth? file = some depth → 0 < depth →
    ∃ source, graph.depth? source = some (depth - 1) ∧ file ∈ graph.targets source

/-- A graph that grows stays layered if its new files are at the top or are imported so. -/
theorem Layered.grow {graph later : Graph} (h : graph.Layered) (hgrows : graph.Grows later)
    (hnew : ∀ file depth, later.depth? file = some depth →
      graph.depth? file = some depth ∨ depth = 0 ∨
        ∃ source, later.depth? source = some (depth - 1) ∧ file ∈ later.targets source) :
    later.Layered := by
  intro file depth hdepth hpos
  rcases hnew file depth hdepth with hold | rfl | himported
  · obtain ⟨source, habove, hedge⟩ := h file depth hold hpos
    exact ⟨source, hgrows.depth? habove, hgrows.holds source (.target file) hedge⟩
  · exact absurd hpos (lt_irrefl 0)
  · exact himported

end Graph

namespace Traversal

open Reference BreadthFirst

variable {world : World} {plan : Plan} {root : Option Path} {search final : Search}
  {history later : History} {steps : List Step} {reached : List (Path × Nat)}

/-- A file is led to only from one that is kept and short of the bound. -/
theorem World.Meets.deeper {file target : Path} {depth : Nat} {sight : Sight}
    (h : world.Meets plan root file depth history sight later) (ht : target ∈ sight.targets) :
    sight.kept file = [file] ∧ Within plan.maxDepth (depth + 1) := by
  cases h with
  | barred _ => exact absurd ht List.not_mem_nil
  | gone _ => exact absurd ht List.not_mem_nil
  | atBound _ _ => exact absurd ht List.not_mem_nil
  | unread _ _ _ => exact absurd ht List.not_mem_nil
  | read _ hbound _ _ _ => exact ⟨rfl, within_succ hbound⟩

/-- A file from the queue is dropped, or it is reported right after it was seen. -/
theorem World.Meets.kept_cases {file : Path} {depth : Nat} {sight : Sight}
    (h : world.Meets plan root file depth history sight later) :
    sight.kept file = [] ∨ sight.kept file = [file] ∧ reported history file depth <+: later := by
  cases h with
  | barred _ => exact Or.inl rfl
  | gone _ => exact Or.inl rfl
  | atBound _ _ => exact Or.inr ⟨rfl, List.prefix_refl _⟩
  | unread _ _ _ =>
    exact Or.inr ⟨rfl, (List.prefix_append _ _).trans (List.prefix_append _ _)⟩
  | read _ _ _ _ hexamines =>
    exact Or.inr ⟨rfl, (List.prefix_append _ _).trans hexamines.passes.isPrefix⟩

/-- The depths of a search, after some reports of its call. -/
structure Search.Levels (plan : Plan) (reached : List (Path × Nat)) (search : Search) : Prop where
  /-- What was reported comes level by level, and then what is queued. -/
  tiered : Tiered reached search.queue
  /-- All of it is within the bound. -/
  within : ∀ x ∈ reached ++ search.queue, Within plan.maxDepth x.2
  /-- The depths in the queue are explained by the reports. -/
  explained : ∀ x ∈ search.queue, search.session.graph.Explains reached x.1 x.2
  /-- Every depth in the graph is due to an import. -/
  layered : search.session.graph.Layered

/-- A search begins with one file at the top. -/
theorem Search.Levels.start {session : Session} {file : Path} (ha : session.Aligned)
    (hnew : file ∉ session.visited) (hlayered : session.graph.Layered) :
    (Search.start session file).Levels plan [] := by
  have hstart := ha.start hnew
  have hnodes := (start_shape ha hnew).2
  have hfiles : (Search.start session file).session.graph.files.Nodup :=
    hstart.visited_eq ▸ hstart.nodup
  refine ⟨⟨List.pairwise_singleton _ _, ?_⟩, ?_, ?_, ?_⟩
  · intro x hx y hy
    rw [List.mem_singleton.mp hy]
    exact Nat.zero_le _
  · intro x hx
    rw [List.mem_singleton.mp hx]
    exact fun limit _ => Nat.zero_le limit
  · intro x hx
    refine ⟨hstart.depth_eq x hx, fun above habove => ?_⟩
    rw [List.mem_singleton.mp hx] at habove
    cases habove
  · refine hlayered.grow (Graph.grows_addNode session.graph file 0) fun other depth hdepth => ?_
    have hmem := (Graph.depth?_eq_some_iff hfiles).mp hdepth
    rw [hnodes, List.mem_append] at hmem
    rcases hmem with hold | hone
    · exact Or.inl ((Graph.depth?_eq_some_iff (ha.visited_eq ▸ ha.nodup)).mpr hold)
    · exact Or.inr (Or.inl (congrArg Prod.snd (List.mem_singleton.mp hone)))

section Step

variable {file : Path} {depth : Nat} {queue : List (Path × Nat)} {sight : Sight}
  (ha : search.Aligned) (hq : search.queue = (file, depth) :: queue)

include ha hq

/-- A step keeps the graph layered: a new file is one level below the file that imports it. -/
theorem after_layered (h : search.session.graph.Layered) (sight : Sight) :
    ({ search with queue }.after file depth sight).session.graph.Layered := by
  have hd := ha.depth_eq (file, depth) (by rw [hq]; exact List.mem_cons_self)
  have hnext := ha.after hq sight
  have hgrows := after_grows ha hq sight
  obtain ⟨-, -, -, hnodes⟩ := after_shape { search with queue } ha.visited_eq hd sight
  refine h.grow hgrows fun other level hlevel => ?_
  have hmem := (Graph.depth?_eq_some_iff (hnext.visited_eq ▸ hnext.nodup)).mp hlevel
  rw [hnodes, List.mem_append, List.mem_map] at hmem
  rcases hmem with hmem | ⟨target, htarget, heq⟩
  · exact Or.inl ((Graph.depth?_eq_some_iff (ha.visited_eq ▸ ha.nodup)).mpr hmem)
  · cases heq
    have hled := (mem_fresh.mp htarget).1
    refine Or.inr (Or.inr ⟨file, ?_, after_targets { search with queue } depth hled⟩)
    rw [add_sub_cancel_right]
    exact hgrows.depth? hd

/-- A step keeps the levels: the files that it queues are one level below its own. -/
theorem Search.Levels.after (h : search.Levels plan reached)
    (hmeets : world.Meets plan root file depth history sight later) :
    ({ search with queue }.after file depth sight).Levels plan
      (reached ++ (sight.kept file).map (·, depth)) := by
  have hd := ha.depth_eq (file, depth) (by rw [hq]; exact List.mem_cons_self)
  have hnext := ha.after hq sight
  obtain ⟨-, hqueue, -, -⟩ := after_shape { search with queue } ha.visited_eq hd sight
  have hkept : ((sight.kept file).map (·, depth)).Sublist [(file, depth)] :=
    (sight.sublists file).1.map (·, depth)
  refine ⟨?_, ?_, ?_, after_layered ha hq h.layered sight⟩
  · have htiered := h.tiered
    rw [hq] at htiered
    rw [hqueue]
    exact htiered.next hkept _
  · have hold : (reached ++ (sight.kept file).map (·, depth) ++ queue).Sublist
        (reached ++ search.queue) := by
      rw [hq, List.append_assoc]
      exact (List.Sublist.refl reached).append (hkept.append (List.Sublist.refl queue))
    intro x hx
    rw [hqueue, ← List.append_assoc, List.mem_append, List.mem_map] at hx
    rcases hx with hx | ⟨target, htarget, rfl⟩
    · exact h.within x (hold.subset hx)
    · exact (hmeets.deeper (mem_fresh.mp htarget).1).2
  · intro x hx
    refine ⟨hnext.depth_eq x hx, ?_⟩
    rw [hqueue, List.mem_append, List.mem_map] at hx
    rcases hx with hx | ⟨target, htarget, rfl⟩
    · have hbefore := h.explained x (by rw [hq]; exact List.mem_cons_of_mem _ hx)
      exact (hbefore.mono (after_grows ha hq sight) (List.subset_append_left _ _)).importer
    · rintro above ⟨⟩
      have hled := (mem_fresh.mp htarget).1
      refine ⟨file, ?_, after_targets { search with queue } depth hled⟩
      rw [(hmeets.deeper hled).1]
      exact List.mem_append_right _ List.mem_cons_self

end Step

namespace World.Proceeds

/-- A run keeps the levels. -/
theorem levels (h : world.Proceeds plan root search history steps final later)
    (ha : search.Aligned) (hlevels : search.Levels plan reached) :
    final.Levels plan (reached ++ steps.flatMap Step.reports) := by
  induction h generalizing reached with
  | rest search history =>
    rw [List.flatMap_nil, List.append_nil]
    exact hlevels
  | take hq hmeets _ ih =>
    rw [List.flatMap_cons, ← List.append_assoc]
    exact ih (ha.after hq _) (Search.Levels.after ha hq hlevels hmeets)

/-- At each report a run is cut in two: the file is the next in the queue, and the report is what
the run goes on with. -/
theorem cut (h : world.Proceeds plan root search history steps final later)
    {before rest : List (Path × Nat)} {file : Path} {depth : Nat}
    (hreports : steps.flatMap Step.reports = before ++ (file, depth) :: rest) :
    ∃ first last mid now, world.Proceeds plan root search history first mid now ∧
      world.Proceeds plan root mid now last final later ∧
      first.flatMap Step.reports = before ∧ (file, depth) ∈ mid.queue ∧
      reported now file depth <+: later := by
  induction h generalizing before with
  | rest search history =>
    exact absurd hreports.symm (List.append_ne_nil_of_right_ne_nil before (List.cons_ne_nil _ _))
  | @take search final history between later other level queue sight steps hq hmeets hrest ih =>
    rw [List.flatMap_cons] at hreports
    rcases hmeets.kept_cases with hnone | ⟨hkept, hreported⟩
    · have hreport : Step.reports ⟨other, level, sight⟩ = [] := by
        rw [Step.reports, Step.kept, hnone]
        rfl
      rw [hreport, List.nil_append] at hreports
      obtain ⟨first, last, mid, now, hfirst, hlast, hbefore, hmem, hnow⟩ := ih hreports
      refine ⟨_, last, mid, now, .take hq hmeets hfirst, hlast, ?_, hmem, hnow⟩
      rw [List.flatMap_cons, hreport, hbefore, List.nil_append]
    · have hreport : Step.reports ⟨other, level, sight⟩ = [(other, level)] := by
        rw [Step.reports, Step.kept, hkept]
        rfl
      rw [hreport] at hreports
      cases before with
      | nil =>
        cases hreports
        refine ⟨[], _, search, history, .rest search history, .take hq hmeets hrest, rfl, ?_,
          hreported.trans hrest.passes.isPrefix⟩
        rw [hq]
        exact List.mem_cons_self
      | cons report before =>
        obtain ⟨rfl, hothers⟩ := List.cons.inj hreports
        obtain ⟨first, last, mid, now, hfirst, hlast, hbefore, hmem, hnow⟩ := ih hothers
        refine ⟨_, last, mid, now, .take hq hmeets hfirst, hlast, ?_, hmem, hnow⟩
        rw [List.flatMap_cons, hreport, hbefore]
        rfl

end World.Proceeds

/-- The world in which a call takes no more than so many files from its queue. -/
def World.upTo (world : World) (count : Nat) : World := { world with fileCount := count }

/-- References are expanded as before. -/
theorem expand_upTo (world : World) (count : Nat) (conventions : Conventions)
    (root : Option Path) (file : Path) (references : List Text) (children : List Path)
    (session : Session) :
    expand (world.upTo count).surroundings conventions root file references children session =
      expand world.surroundings conventions root file references children session := by
  induction references generalizing children session with
  | nil => rfl
  | cons reference references ih =>
    simp only [expand, ih]
    rfl

/-- Files are visited as before. -/
theorem visit_upTo (world : World) (count : Nat) (plan : Plan) (root : Option Path) (file : Path)
    (depth : Nat) (search : Search) :
    visit (world.upTo count).surroundings plan root file depth search =
      visit world.surroundings plan root file depth search := by
  simp only [visit, expand_upTo]
  rfl

/-- A run with a limit of its own goes as before. -/
theorem run_upTo (world : World) (count : Nat) (plan : Plan) (root : Option Path) (limit : Nat)
    (search : Search) :
    run (world.upTo count).surroundings plan root limit search =
      run world.surroundings plan root limit search := by
  induction limit generalizing search with
  | zero => rfl
  | succ limit ih => simp only [run, visit_upTo, ih]

section Calls

variable {entry : Text} {session next : Session} {answer : Except Trouble (List Path)}
  {after : History}

/-- A call that is cut short leaves the session as it was after so many files. -/
theorem World.Proceeds.follow_upTo {asked : History}
    (h : world.Proceeds plan root (Search.start session (world.place entry))
      (asked ++ [.told (.rootSought (world.place entry) root)]) steps final later)
    (hadmits : world.Admits history (world.place entry))
    (hnew : world.place entry ∉ session.visited)
    (hroot : (findRoot plan.conventions world.surroundings.holds world.cwd
      (world.place entry)).run.run (admitted history (world.place entry)) = (.ok root, asked)) :
    (follow (world.upTo steps.length).surroundings plan entry session).run history =
      ((.ok final.found, final.session), later) := by
  have hadmits' : (world.upTo steps.length).Admits history (world.place entry) :=
    ⟨hadmits.holds, hadmits.isFile⟩
  refine follow_searched hadmits' hnew hroot ?_
  rw [run_upTo]
  exact h.run_length

/-- The reports of a call come level by level and within the bound, and the graph stays layered. -/
theorem World.Serves.levels (h : world.Serves plan entry session history answer next steps after)
    (ha : session.Aligned) (hlayered : session.graph.Layered) :
    (steps.flatMap Step.reports).Pairwise (fun x y => x.2 ≤ y.2) ∧
      (∀ report ∈ steps.flatMap Step.reports, Within plan.maxDepth report.2) ∧
      next.graph.Layered := by
  cases h with
  | refused _ _ _ => exact ⟨List.Pairwise.nil, nofun, hlayered⟩
  | known _ _ => exact ⟨List.Pairwise.nil, nofun, hlayered⟩
  | rootless _ _ _ => exact ⟨List.Pairwise.nil, nofun, hlayered⟩
  | searched _ hnew _ hproceeds _ =>
    have hlevels := hproceeds.levels (ha.start hnew) (Search.Levels.start ha hnew hlayered)
    rw [List.nil_append] at hlevels
    exact ⟨(List.pairwise_append.mp hlevels.tiered.sorted).1,
      fun report hmem => hlevels.within report (List.mem_append_left _ hmem), hlevels.layered⟩

/-- Each report of a call is explained by those before it: when it is made, and after the call. -/
theorem World.Serves.explains
    (h : world.Serves plan entry session history answer next steps after)
    (ha : session.Aligned) (hlayered : session.graph.Layered) {before rest : List (Path × Nat)}
    {file : Path} {depth : Nat}
    (hreports : steps.flatMap Step.reports = before ++ (file, depth) :: rest) :
    next.graph.Explains before file depth ∧ ∃ count cut now,
      (follow (world.upTo count).surroundings plan entry session).run history =
          ((.ok (before.map Prod.fst), cut), now) ∧
        reported now file depth <+: after ∧ cut.graph.Explains before file depth := by
  have hsome : ¬ [] = before ++ (file, depth) :: rest :=
    (List.append_ne_nil_of_right_ne_nil before (List.cons_ne_nil _ _)).symm
  cases h with
  | refused _ _ _ => exact absurd hreports hsome
  | known _ _ => exact absurd hreports hsome
  | rootless _ _ _ => exact absurd hreports hsome
  | searched hadmits hnew hroot hproceeds _ =>
    obtain ⟨first, last, mid, now, hfirst, hlast, rfl, hmem, hnow⟩ := hproceeds.cut hreports
    have hstart := ha.start hnew
    have hlevels := hfirst.levels hstart (Search.Levels.start ha hnew hlayered)
    have hruns := hfirst.runs (findRoot_place_isClean hroot) hstart
      (start_queue_isNormal world session entry)
    obtain ⟨hmid, hfound, -⟩ := hruns.extends hstart
    have hexplains : mid.session.graph.Explains (first.flatMap Step.reports) file depth :=
      hlevels.explained (file, depth) hmem
    refine ⟨hexplains.mono (hlast.grows hmid) (List.Subset.refl _), first.length, mid.session, now,
      ?_, hnow, hexplains⟩
    rw [hfirst.follow_upTo hadmits hnew hroot, hfound, Step.reports_fst]
    rfl

/-- In every state that a session comes to, the graph is layered and has the depths that were
reported. -/
theorem Reached.layered {lists : List (List Path)} (h : Reached world plan lists session history) :
    session.graph.Layered ∧
      ∀ report ∈ reports history, session.graph.depth? report.1 = some (report.2 : Int) := by
  induction h with
  | fresh => exact ⟨nofun, nofun⟩
  | @step lists session later history after entry answer hbefore hrun ih =>
    obtain ⟨hlayered, hdepths⟩ := ih
    have ha := hbefore.invariant.1
    obtain ⟨answer', later', steps, after', hserves, hrun'⟩ :=
      follow_serves world plan ha entry history
    rw [hrun] at hrun'
    cases hrun'
    refine ⟨(hserves.levels ha hlayered).2.2, fun report hmem => ?_⟩
    rw [hserves.adds.reports_eq] at hmem
    rcases List.mem_append.mp hmem with hmem | hmem
    · exact (hserves.grows ha).depth? (hdepths report hmem)
    · obtain ⟨before, rest, hreports⟩ := List.append_of_mem hmem
      exact (hserves.explains ha hlayered hreports).1.depth_eq

end Calls

/-- In every state that a session comes to, the graph has the depths that were reported, and every
file below the top is imported by one that is one level above it. The reports of a further call
are those of the files that it gives, level by level and within the bound. Each of them is
explained by the reports before it, by the session as it then is and as it is after the call. -/
theorem Reached.depths_explained {lists : List (List Path)} {session : Session}
    (h : Reached world plan lists session history) :
    (∀ report ∈ reports history, session.graph.depth? report.1 = some (report.2 : Int)) ∧
      session.graph.Layered ∧
      ∀ entry, ∃ answer later after reached,
        (follow world.surroundings plan entry session).run history = ((answer, later), after) ∧
          Reached world plan (lists ++ answer.toOption.toList) later after ∧
          reports after = reports history ++ reached ∧
          reached.map Prod.fst = answer.toOption.toList.flatten ∧
          reached.Pairwise (fun x y => x.2 ≤ y.2) ∧
          (∀ report ∈ reached, Within plan.maxDepth report.2) ∧
          ∀ before file depth rest, reached = before ++ (file, depth) :: rest →
            later.graph.Explains before file depth ∧ ∃ count cut now,
              (follow (world.upTo count).surroundings plan entry session).run history =
                  ((.ok (before.map Prod.fst), cut), now) ∧
                reported now file depth <+: after ∧ cut.graph.Explains before file depth := by
  obtain ⟨hlayered, hdepths⟩ := h.layered
  have halign := h.invariant.1
  refine ⟨hdepths, hlayered, fun entry => ?_⟩
  obtain ⟨answer, later, steps, after, hserves, hrun⟩ :=
    follow_serves world plan halign entry history
  obtain ⟨hsorted, hwithin, -⟩ := hserves.levels halign hlayered
  obtain ⟨-, hanswer, -⟩ := (hserves.follows halign).extends halign
  refine ⟨answer, later, after, _, hrun, h.step hrun, hserves.adds.reports_eq, ?_, hsorted, hwithin,
    fun before file depth rest hreports => hserves.explains halign hlayered hreports⟩
  rw [hanswer, Step.reports_fst]

/-- The third file of the chain is explained by the second when it is reported, and afterwards. -/
theorem depths_explained_chain :
    ∃ answer later after, (follow chain.world.surroundings {} "a.js".toList {}).run [] =
        ((answer, later), after) ∧
      reports after = [(chain.place "a.js".toList, 0), (chain.place "b.js".toList, 1),
        (chain.place "c.js".toList, 2)] ∧
      later.graph.Explains [(chain.place "a.js".toList, 0), (chain.place "b.js".toList, 1)]
        (chain.place "c.js".toList) 2 ∧
      ∃ count cut now,
        (follow (chain.world.upTo count).surroundings {} "a.js".toList {}).run [] =
            ((.ok [chain.place "a.js".toList, chain.place "b.js".toList], cut), now) ∧
          cut.graph.Explains [(chain.place "a.js".toList, 0), (chain.place "b.js".toList, 1)]
            (chain.place "c.js".toList) 2 := by
  have hfresh : Reached chain.world {} [] {} [] := .fresh
  obtain ⟨-, -, hcalls⟩ := hfresh.depths_explained
  obtain ⟨answer, later, after, reached, hrun, -, hreports, -, -, -, hexplains⟩ :=
    hcalls "a.js".toList
  have hafter : after = ((follow chain.world.surroundings {} "a.js".toList {}).run []).2 := by
    rw [hrun]
  have hthree : reports after = [(chain.place "a.js".toList, 0), (chain.place "b.js".toList, 1),
      (chain.place "c.js".toList, 2)] := by
    rw [hafter]
    decide +kernel
  obtain ⟨hlater, count, cut, now, hcut, -, hnow⟩ :=
    hexplains [(chain.place "a.js".toList, 0), (chain.place "b.js".toList, 1)]
      (chain.place "c.js".toList) 2 [] (hreports.symm.trans hthree)
  exact ⟨answer, later, after, hrun, hthree, hlater, count, cut, now, hcut, hnow⟩

end Traversal

end SourceLoom
