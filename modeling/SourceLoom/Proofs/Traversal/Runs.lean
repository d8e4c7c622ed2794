import SourceLoom.Proofs.Traversal.Transcript

/-!
# Runs

A run takes files from the queue one by one until the queue is empty or the limit is met. Whatever
the world answers, no misuse comes up on the way, every path in the queue stays normal, and every
file that is newly visited was queued once. A run has a transcript, and each part of it is the run
with as many steps as a limit.
-/

namespace SourceLoom.Traversal

open Reference BreadthFirst

/-- A file that was taken from the queue, and what it came to. -/
structure Step where
  /-- The file. -/
  file : Path
  /-- Its depth in the queue. -/
  depth : Nat
  /-- What it came to. -/
  sight : Sight

/-- The file that a step adds to the result, if there is one. -/
def Step.kept (step : Step) : List Path := step.sight.kept step.file

/-- The report of a step, if there is one. -/
def Step.reports (step : Step) : List (Path × Nat) := step.kept.map (·, step.depth)

/-- The file that a step reads, if there is one. -/
def Step.reads (step : Step) : List Path := step.sight.reads step.file

/-- The reports of some steps are of the files that they add. -/
theorem Step.reports_fst (steps : List Step) :
    (steps.flatMap Step.reports).map Prod.fst = steps.flatMap Step.kept := by
  rw [List.map_flatMap]
  refine congrArg (steps.flatMap ·) (funext fun step => ?_)
  rw [Step.reports, List.map_map]
  exact List.map_id _

/-- One search may become another by some steps. -/
inductive World.Runs (world : World) (plan : Plan) (root : Option Path) :
    Search → List Step → Search → Prop
  /-- Nothing more is taken. -/
  | rest (search : Search) : Runs world plan root search [] search
  /-- The next file is taken and comes to a sight. -/
  | take {search final : Search} {file : Path} {depth : Nat} {queue : List (Path × Nat)}
      {sight : Sight} {steps : List Step} :
      search.queue = (file, depth) :: queue → world.Sees plan root file depth sight →
      Runs world plan root ({ search with queue }.after file depth sight) steps final →
      Runs world plan root search (⟨file, depth, sight⟩ :: steps) final

variable {world : World} {plan : Plan} {root : Option Path}

/-- A file that a step leads to is normal, and a regular file was seen there. -/
theorem World.Sees.targets_isNormal {file target : Path} {depth : Nat} {sight : Sight}
    (h : world.Sees plan root file depth sight) (ht : target ∈ sight.targets) :
    target.IsNormal ∧ ∃ history, world.isFile history target = .ok true := by
  cases sight with
  | barred fault => exact absurd ht List.not_mem_nil
  | gone => exact absurd ht List.not_mem_nil
  | atBound => exact absurd ht List.not_mem_nil
  | unread fault => exact absurd ht List.not_mem_nil
  | read text findings =>
    obtain ⟨finding, hmem, hfinding⟩ := List.mem_filterMap.mp ht
    have hfinds := h.2.2.2.2 finding hmem
    obtain ⟨reference, _ | fault | _ | found⟩ := finding <;> cases hfinding
    exact hfinds.2.2

/-- A step keeps the queue normal. -/
theorem after_queue_isNormal {search : Search} {file : Path} {depth : Nat}
    {queue : List (Path × Nat)} {sight : Sight} (ha : search.Aligned)
    (hq : search.queue = (file, depth) :: queue) (hn : ∀ x ∈ search.queue, x.1.IsNormal)
    (hs : world.Sees plan root file depth sight) :
    ∀ x ∈ ({ search with queue }.after file depth sight).queue, x.1.IsNormal := by
  have hd := ha.depth_eq (file, depth) (by rw [hq]; exact List.mem_cons_self)
  obtain ⟨-, hqueue, -, -⟩ := after_shape { search with queue } ha.visited_eq hd sight
  intro x hx
  rw [hqueue, List.mem_append, List.mem_map] at hx
  rcases hx with hx | ⟨y, hy, rfl⟩
  · exact hn x (by rw [hq]; exact List.mem_cons_of_mem _ hx)
  · exact (hs.targets_isNormal (mem_fresh.mp hy).1).1

/-- One search proceeds to another by some steps while so much passes. -/
inductive World.Proceeds (world : World) (plan : Plan) (root : Option Path) :
    Search → History → List Step → Search → History → Prop
  /-- Nothing more is taken. -/
  | rest (search : Search) (history : History) : Proceeds world plan root search history [] search
      history
  /-- The next file is taken and comes to a sight. -/
  | take {search final : Search} {history between later : History} {file : Path} {depth : Nat}
      {queue : List (Path × Nat)} {sight : Sight} {steps : List Step} :
      search.queue = (file, depth) :: queue →
      world.Meets plan root file depth history sight between →
      Proceeds world plan root ({ search with queue }.after file depth sight) between steps final
        later →
      Proceeds world plan root search history (⟨file, depth, sight⟩ :: steps) final later

namespace World.Proceeds

variable {search final : Search} {history later : History} {steps : List Step}

/-- The files that a run keeps are reported, and those that it reads are read. -/
theorem adds (h : world.Proceeds plan root search history steps final later) :
    Adds history later (steps.flatMap Step.reports) (steps.flatMap Step.reads) := by
  induction h with
  | rest search history => exact Adds.refl history
  | take _ hmeets _ ih => exact hmeets.adds.trans ih

/-- No root is sought in a run. -/
theorem passes (h : world.Proceeds plan root search history steps final later) :
    Passes Exchange.IsOnWay history later := by
  induction h with
  | rest search history => exact Passes.refl history
  | take _ hmeets _ ih => exact hmeets.passes.trans ih

/-- After the steps of a run, what is left of the limit goes on from there. -/
theorem run_eq (h : world.Proceeds plan root search history steps final later) (rest : Nat) :
    (run world.surroundings plan root (steps.length + rest) search).run history =
      (run world.surroundings plan root rest final).run later := by
  induction h with
  | rest search history => rw [List.length_nil, Nat.zero_add]
  | @take search _ _ _ _ _ _ _ _ steps hq hmeets _ ih =>
    have hlimit : steps.length + 1 + rest = steps.length + rest + 1 := by omega
    rw [List.length_cons, hlimit]
    simp only [run, hq]
    rw [run_bind, hmeets.visit_run]
    exact ih

/-- A run with as many steps as its limit is over. -/
theorem run_length (h : world.Proceeds plan root search history steps final later) :
    (run world.surroundings plan root steps.length search).run history =
      ((.ok (), final), later) := h.run_eq 0

/-- A run takes steps that its files may come to. -/
theorem runs (h : world.Proceeds plan root search history steps final later)
    (hroot : ∀ directory ∈ root, directory.IsClean) (ha : search.Aligned)
    (hn : ∀ x ∈ search.queue, x.1.IsNormal) : world.Runs plan root search steps final := by
  induction h with
  | rest search history => exact .rest search
  | @take search _ _ _ _ file depth queue _ _ hq hmeets _ ih =>
    have hfile : file.IsNormal := hn (file, depth) (by rw [hq]; exact List.mem_cons_self)
    have hsees := hmeets.sees hfile.isAbsolute hroot
    exact .take hq hsees (ih (ha.after hq _) (after_queue_isNormal ha hq hn hsees))

end World.Proceeds

/-- A search has a run that empties the queue or meets the limit. -/
theorem exists_proceeds (world : World) (plan : Plan)
    (hroot : ∀ directory ∈ root, directory.IsClean) (limit : Nat) {search : Search}
    (ha : search.Aligned) (hn : ∀ x ∈ search.queue, x.1.IsNormal) (history : History) :
    ∃ steps final later, world.Proceeds plan root search history steps final later ∧
      (final.queue = [] ∨ steps.length = limit) ∧ steps.length ≤ limit := by
  induction limit generalizing search history with
  | zero => exact ⟨[], search, history, .rest search history, Or.inr rfl, Nat.le_refl 0⟩
  | succ limit ih =>
    cases hq : search.queue with
    | nil => exact ⟨[], search, history, .rest search history, Or.inl hq, Nat.zero_le _⟩
    | cons head queue =>
      obtain ⟨file, depth⟩ := head
      have hfile : file.IsNormal := hn (file, depth) (by rw [hq]; exact List.mem_cons_self)
      obtain ⟨sight, between, hmeets⟩ :=
        exists_meets world plan hfile.isAbsolute hroot depth history
      have hsees := hmeets.sees hfile.isAbsolute hroot
      obtain ⟨steps, final, later, hproceeds, hover, hle⟩ :=
        ih (ha.after hq sight) (after_queue_isNormal ha hq hn hsees) between
      refine ⟨_, final, later, .take hq hmeets hproceeds, ?_, Nat.succ_le_succ hle⟩
      exact hover.imp id fun h => congrArg (· + 1) h

/-- A run is over when its steps have emptied the queue or met the limit. -/
theorem World.Proceeds.run_of_over {search final : Search} {history later : History}
    {steps : List Step} (h : world.Proceeds plan root search history steps final later)
    {limit : Nat} (hover : final.queue = [] ∨ steps.length = limit) (hle : steps.length ≤ limit) :
    (run world.surroundings plan root limit search).run history = ((.ok (), final), later) := by
  obtain ⟨rest, rfl⟩ := Nat.exists_eq_add_of_le hle
  rw [h.run_eq rest]
  rcases hover with hq | hlength
  · cases rest with
    | zero => rfl
    | succ rest =>
      rw [run, hq]
      rfl
  · have hrest : rest = 0 := by omega
    rw [hrest]
    rfl

/-- The results and the files read are among the files that were taken, in their order. -/
theorem Step.sublists (steps : List Step) :
    (steps.flatMap Step.kept).Sublist (steps.map Step.file) ∧
      (steps.flatMap Step.reads).Sublist (steps.map Step.file) := by
  induction steps with
  | nil => exact ⟨List.Sublist.refl _, List.Sublist.refl _⟩
  | cons step steps ih =>
    obtain ⟨hkept, hreads⟩ := step.sight.sublists step.file
    exact ⟨hkept.append ih.1, hreads.append ih.2⟩

/-- A run keeps the bookkeeping, and it takes the queue and what it newly visits in turn. -/
theorem World.Runs.extends {search final : Search} {steps : List Step}
    (h : world.Runs plan root search steps final) (ha : search.Aligned) :
    final.Aligned ∧ final.found = search.found ++ steps.flatMap Step.kept ∧
      ∃ new, final.session.visited = search.session.visited ++ new ∧
        steps.map Step.file ++ final.queue.map Prod.fst = search.queue.map Prod.fst ++ new := by
  induction h with
  | rest search => exact ⟨ha, (List.append_nil _).symm, [], (List.append_nil _).symm, by simp⟩
  | @take search final file depth queue sight steps hq hs hruns ih =>
    have hd := ha.depth_eq (file, depth) (by rw [hq]; exact List.mem_cons_self)
    obtain ⟨hfound, hqueue, hvisited, -⟩ := after_shape { search with queue } ha.visited_eq hd sight
    obtain ⟨hfinal, hkept, new, hnew, htaken⟩ := ih (ha.after hq sight)
    refine ⟨hfinal, ?_, fresh search.session.visited sight.targets ++ new, ?_, ?_⟩
    · rw [hkept, hfound, List.flatMap_cons, List.append_assoc]
      rfl
    · rw [hnew, hvisited, List.append_assoc]
    · rw [List.map_cons, List.cons_append, htaken, hqueue, hq, List.map_append, List.map_map,
        List.map_cons, List.cons_append, List.append_assoc]
      congr 3
      exact List.map_id _

end SourceLoom.Traversal
