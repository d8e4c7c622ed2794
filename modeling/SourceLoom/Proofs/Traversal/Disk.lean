import SourceLoom.Proofs.Traversal.Calls

/-!
# Searches on a disk

On a disk nothing that was seen changes, so a search takes the steps of a sweep along the imports:
what it comes to is decided. The files of a disk outnumber those that a sweep may take, and so
every search on a disk ends with an empty queue.
-/

namespace SourceLoom.Traversal

open Reference BreadthFirst

namespace Disk

variable {disk : Disk} {plan : Plan} {root : Option Path} {file : Path}

/-- A finding shows what its reference imports. -/
theorem target?_of_finds {conventions : Conventions} (hfile : file.isAbsolute = true)
    {finding : Text × Finding}
    (h : disk.world.Finds conventions root file finding.1 finding.2) :
    disk.target? conventions root file finding.1 = finding.2.target? := by
  obtain ⟨reference, finding⟩ := finding
  unfold target?
  cases finding with
  | external =>
    have hlocal : isLocal conventions reference = false := h
    rw [hlocal]
    rfl
  | faulty fault =>
    obtain ⟨hlocal, history, hresolved⟩ := h
    rw [world_resolved hfile hlocal] at hresolved
    rw [if_pos hlocal, hresolved]
    rfl
  | missing =>
    obtain ⟨hlocal, history, hresolved⟩ := h
    rw [world_resolved hfile hlocal] at hresolved
    rw [if_pos hlocal, hresolved]
    rfl
  | leads target =>
    obtain ⟨hlocal, ⟨history, hresolved⟩, -⟩ := h
    rw [world_resolved hfile hlocal] at hresolved
    rw [if_pos hlocal, hresolved]
    rfl

/-- The findings in a file show what its references import. -/
theorem targets_eq {conventions : Conventions} (hfile : file.isAbsolute = true)
    {findings : List (Text × Finding)}
    (h : ∀ finding ∈ findings, disk.world.Finds conventions root file finding.1 finding.2) :
    targets findings = (findings.map Prod.fst).filterMap (disk.target? conventions root file) := by
  rw [targets, List.filterMap_map]
  apply List.filterMap_congr
  intro finding hmem
  exact (target?_of_finds hfile (h finding hmem)).symm

/-- On a disk a regular file is kept, and it leads to its imports if it is short of the bound. -/
theorem sight_eq (hfile : file.isAbsolute = true) (hseen : disk.isFile file = .ok true)
    {depth : Nat} {sight : Sight} (h : disk.world.Sees plan root file depth sight) :
    sight.kept file = [file] ∧
      sight.targets =
        offspring (disk.imports plan.conventions root) plan.maxDepth file depth := by
  cases sight with
  | barred fault =>
    obtain ⟨history, hbarred⟩ := h
    cases hseen.symm.trans hbarred
  | gone =>
    obtain ⟨history, hgone⟩ := h
    cases hseen.symm.trans hgone
  | atBound =>
    rw [offspring_at_bound h.2]
    exact ⟨rfl, rfl⟩
  | unread fault =>
    obtain ⟨-, hbound, history, hread⟩ := h
    have htext : disk.readText file = .error fault := hread
    rw [offspring_short hbound, imports, htext]
    exact ⟨rfl, rfl⟩
  | read text findings =>
    obtain ⟨-, hbound, ⟨history, hread⟩, hfst, hall⟩ := h
    have htext : disk.readText file = .ok text := hread
    rw [offspring_short hbound, imports, htext]
    refine ⟨rfl, ?_⟩
    change targets findings = _
    rw [targets_eq hfile hall, hfst]

/-- What a regular file imports is a regular file at a normal path. -/
theorem Imports.isFile {conventions : Conventions} {target : Path}
    (hroot : ∀ directory ∈ root, directory.IsClean) (hfile : file.isAbsolute = true)
    (h : disk.Imports conventions root file target) :
    target.IsNormal ∧ disk.isFile target = .ok true := by
  obtain ⟨text, -, reference, -, hlocal, hresolved⟩ := h
  rw [← world_resolved hfile hlocal []] at hresolved
  rcases disk.world.resolved_cases hfile hlocal hroot [] with ⟨fault, h⟩ | h | ⟨found, hn, hs, h⟩
  · rw [h] at hresolved
    cases hresolved
  · rw [h] at hresolved
    cases hresolved
  · rw [h] at hresolved
    cases hresolved
    obtain ⟨earlier, hs⟩ := hs
    exact ⟨hn, hs⟩

/-- The root of a project is clean. -/
theorem rootOf_isClean {conventions : Conventions} (hn : file.IsNormal)
    (h : disk.rootOf conventions file = .ok root) : ∀ directory ∈ root, directory.IsClean := by
  rw [← disk.world_findRoot conventions file []] at h
  rintro directory ⟨⟩
  exact findRoot_isClean hn.isClean disk.cwd_isNormal h

/-- An entry names a normal path. -/
theorem place_isNormal (disk : Disk) (entry : Text) : (disk.place entry).IsNormal :=
  Path.absolute_ofText_isNormal entry disk.cwd_isNormal

/-- The sweep along the imports from a file, with as many steps as there may be files. -/
def sweep (disk : Disk) (plan : Plan) (root : Option Path) (around : List Path) (x : Path) :
    Sweep Path :=
  (Sweep.step (disk.imports plan.conventions root) plan.maxDepth)^[disk.fileCount]
    (Sweep.start around x)

/-- A sweep along the imports can begin at a file and go around others. -/
structure Ready (disk : Disk) (root : Option Path) (around : List Path) (x : Path) : Prop where
  /-- The root of its project is clean. -/
  root_isClean : ∀ directory ∈ root, directory.IsClean
  /-- It is given in normal form. -/
  isNormal : x.IsNormal
  /-- It is a regular file. -/
  isFile : disk.isFile x = .ok true
  /-- The others are distinct. -/
  nodup : around.Nodup
  /-- It is none of them. -/
  not_mem : x ∉ around

section Sweeps

variable {around : List Path} {x : Path}

/-- A sweep can begin at an entry that is a regular file with a root. -/
theorem ready_place {conventions : Conventions} {entry : Text} (hnodup : around.Nodup)
    (hnew : disk.place entry ∉ around) (hfile : disk.isFile (disk.place entry) = .ok true)
    (hroot : disk.rootOf conventions (disk.place entry) = .ok root) :
    disk.Ready root around (disk.place entry) :=
  ⟨rootOf_isClean (disk.place_isNormal entry) hroot, disk.place_isNormal entry, hfile, hnodup, hnew⟩

/-- The chains of a sweep along the imports. -/
theorem hops_imports {conventions : Conventions} {y : Path} {n : Nat} :
    Hops (fun a b => b ∈ disk.imports conventions root a ∧ b ∉ around) x n y ↔
      Hops (fun a b => disk.Imports conventions root a b ∧ b ∉ around) x n y := by
  constructor
  · intro h
    exact h.mono fun a b hab => ⟨mem_imports.mp hab.1, hab.2⟩
  · intro h
    exact h.mono fun a b hab => ⟨mem_imports.mpr hab.1, hab.2⟩

namespace Ready

variable (h : disk.Ready root around x)

include h

/-- The sweep takes only regular files at normal paths. -/
theorem items_isFile {conventions : Conventions} {bound : Option Nat} {s : Sweep Path}
    (hs : Sweep.Sound (disk.imports conventions root) bound around x s) :
    ∀ y ∈ s.items, y.1.IsNormal ∧ disk.isFile y.1 = .ok true := by
  intro y hy
  refine (hs.hops y hy).induct (P := fun z => z.IsNormal ∧ disk.isFile z = .ok true)
    ⟨h.isNormal, h.isFile⟩ ?_
  rintro a b ⟨ha, -⟩ ⟨hb, -⟩
  exact (mem_imports.mp hb).isFile h.root_isClean ha.isAbsolute

variable (plan : Plan)

/-- The sweep is sound. -/
theorem sound : Sweep.Sound (disk.imports plan.conventions root) plan.maxDepth around x
    (disk.sweep plan root around x) :=
  (Sweep.start_sound _ _ h.nodup h.not_mem).iterate disk.fileCount

/-- The sweep is over when it has made its steps. -/
theorem queue_eq_nil : (disk.sweep plan root around x).queue = [] := by
  have hs := h.sound plan
  apply Sweep.queue_eq_nil disk.card_files_le hs
  intro y hy
  obtain ⟨hnormal, hisFile⟩ := h.items_isFile hs y hy
  exact disk.mem_files y.1 hnormal hisFile

/-- All items of the sweep were taken. -/
theorem items_eq :
    (disk.sweep plan root around x).items = (disk.sweep plan root around x).taken := by
  rw [Sweep.items, h.queue_eq_nil plan, List.append_nil]

/-- What was taken is distinct, and none of the others. -/
theorem append_taken_nodup :
    (around ++ (disk.sweep plan root around x).taken.map Prod.fst).Nodup := by
  have hknown := (h.sound plan).nodup
  rw [(h.sound plan).known_eq, h.items_eq plan] at hknown
  exact hknown

/-- The sweep takes the files within the bound, each at its distance. -/
theorem mem_taken_iff (y : Path) (depth : Nat) :
    (y, depth) ∈ (disk.sweep plan root around x).taken ↔ Within plan.maxDepth depth ∧
      IsLeast {n | Hops (fun a b => disk.Imports plan.conventions root a b ∧ b ∉ around) x n y}
        depth := by
  rw [(h.sound plan).mem_taken_iff (h.queue_eq_nil plan)]
  simp only [hops_imports]

/-- The files that the sweep takes are those within the bound. -/
theorem mem_taken_fst_iff (y : Path) :
    y ∈ (disk.sweep plan root around x).taken.map Prod.fst ↔ ∃ n, Within plan.maxDepth n ∧
      Hops (fun a b => disk.Imports plan.conventions root a b ∧ b ∉ around) x n y := by
  constructor
  · intro hmem
    obtain ⟨⟨y, depth⟩, htaken, rfl⟩ := List.mem_map.mp hmem
    obtain ⟨hw, hleast⟩ := (h.mem_taken_iff plan y depth).mp htaken
    exact ⟨depth, hw, hleast.1⟩
  · rintro ⟨n, hw, hops⟩
    obtain ⟨depth, -, htaken⟩ := (h.sound plan).exists_taken (h.queue_eq_nil plan)
      (hops_imports.mpr hops) hw
    exact List.mem_map.mpr ⟨(y, depth), htaken, rfl⟩

end Ready

end Sweeps

end Disk

/-- A search keeps pace with a sweep: the graph, too, has grown by the items of the sweep. -/
structure Mirrors (earlier : List (Path × Int)) (s : Sweep Path) (search : Search) : Prop where
  /-- The result is what was taken. -/
  found_eq : search.found = s.taken.map Prod.fst
  /-- The queues are the same. -/
  queue_eq : search.queue = s.queue
  /-- Visited is what is known. -/
  visited_eq : search.session.visited = s.known
  /-- The new nodes of the graph are the items. -/
  nodes_eq : search.session.graph.nodes = earlier ++ s.items.map fun y => (y.1, (y.2 : Int))

section Runs

variable {disk : Disk} {plan : Plan} {root : Option Path} {earlier : List (Path × Int)}
  {s : Sweep Path} {search final : Search}

/-- A step of a search on a disk is a step of the sweep. -/
theorem Mirrors.step (h : Mirrors earlier s search) (ha : search.Aligned) {file : Path}
    {depth : Nat} {queue : List (Path × Nat)} {sight : Sight}
    (hq : search.queue = (file, depth) :: queue) (hfile : file.isAbsolute = true)
    (hseen : disk.isFile file = .ok true) (hs : disk.world.Sees plan root file depth sight) :
    Mirrors earlier (s.step (disk.imports plan.conventions root) plan.maxDepth)
      ({ search with queue }.after file depth sight) := by
  have hd := ha.depth_eq (file, depth) (by rw [hq]; exact List.mem_cons_self)
  obtain ⟨hkept, htargets⟩ := disk.sight_eq hfile hseen hs
  obtain ⟨hfound, hqueue, hvisited, hnodes⟩ :=
    after_shape { search with queue } ha.visited_eq hd sight
  rw [hkept] at hfound
  rw [htargets, h.visited_eq] at hqueue hvisited hnodes
  have hsq : s.queue = (file, depth) :: queue := h.queue_eq.symm.trans hq
  have hitems := Sweep.step_items (disk.imports plan.conventions root) plan.maxDepth hsq
  constructor
  · rw [hfound, h.found_eq]
    simp only [Sweep.step, hsq, List.map_append, List.map_cons, List.map_nil]
  · rw [hqueue]
    simp only [Sweep.step, hsq]
  · rw [hvisited]
    simp only [Sweep.step, hsq]
  · rw [hnodes, h.nodes_eq, hitems, List.map_append, List.append_assoc, List.map_map]
    rfl

/-- A search on a disk takes the steps of the sweep, and its reports are what the sweep took. -/
theorem World.Runs.mirrors {steps : List Step} (h : disk.world.Runs plan root search steps final)
    {around : List Path} {x : Path} (hready : disk.Ready root around x) (ha : search.Aligned)
    (hs : Sweep.Sound (disk.imports plan.conventions root) plan.maxDepth around x s)
    (hm : Mirrors earlier s search) :
    Mirrors earlier
        ((Sweep.step (disk.imports plan.conventions root) plan.maxDepth)^[steps.length] s) final ∧
      ((Sweep.step (disk.imports plan.conventions root) plan.maxDepth)^[steps.length] s).taken =
        s.taken ++ steps.flatMap Step.reports := by
  induction h generalizing s with
  | rest search => exact ⟨hm, (List.append_nil _).symm⟩
  | @take search final file depth queue sight steps hq hsees hruns ih =>
    have hsq : s.queue = (file, depth) :: queue := hm.queue_eq.symm.trans hq
    have hmem : (file, depth) ∈ s.items := by
      rw [Sweep.items, hsq]
      exact List.mem_append_right _ List.mem_cons_self
    obtain ⟨hfile, hseen⟩ := hready.items_isFile hs (file, depth) hmem
    obtain ⟨hmirrors, htaken⟩ :=
      ih (ha.after hq sight) hs.step (hm.step ha hq hfile.isAbsolute hseen hsees)
    refine ⟨hmirrors, ?_⟩
    have hreports : Step.reports ⟨file, depth, sight⟩ = [(file, depth)] := by
      rw [Step.reports, Step.kept, (disk.sight_eq hfile.isAbsolute hseen hsees).1]
      rfl
    rw [List.length_cons, Function.iterate_succ_apply, htaken, List.flatMap_cons, hreports]
    simp only [Sweep.step, hsq, List.append_assoc]

/-- A search on a disk that is over is the sweep. -/
theorem World.Runs.eq_sweep {session : Session} {file : Path} {steps : List Step}
    (h : disk.world.Runs plan root (Search.start session file) steps final)
    (hover : final.queue = [] ∨ steps.length = disk.fileCount) (ha : session.Aligned)
    (hready : disk.Ready root session.visited file) :
    Mirrors session.graph.nodes (disk.sweep plan root session.visited file) final ∧
      (disk.sweep plan root session.visited file).taken = steps.flatMap Step.reports := by
  obtain ⟨hvisited, hnodes⟩ := start_shape ha hready.not_mem
  obtain ⟨hmirrors, htaken⟩ := h.mirrors hready (ha.start hready.not_mem)
    (Sweep.start_sound _ _ ha.nodup hready.not_mem) ⟨rfl, rfl, hvisited, hnodes⟩
  have heq : (Sweep.step (disk.imports plan.conventions root) plan.maxDepth)^[steps.length]
      (Sweep.start session.visited file) = disk.sweep plan root session.visited file := by
    rcases hover with hover | hover
    · rw [hmirrors.queue_eq] at hover
      exact Sweep.iterate_eq_of_queue_nil hover (hready.queue_eq_nil plan)
    · rw [hover]
      rfl
  rw [heq] at hmirrors htaken
  exact ⟨hmirrors, htaken⟩

end Runs

/-- What following an entry on a disk comes to: the answer, the session afterwards and the
reports. -/
inductive Disk.Follows (disk : Disk) (plan : Plan) (entry : Text) (session : Session) :
    Except Trouble (List Path) → Session → List (Path × Nat) → Prop
  /-- The entry is no regular file, or it was visited before. -/
  | skipped {later : Session} :
      disk.isFile (disk.place entry) ≠ .ok true ∨ disk.place entry ∈ session.visited →
      later.visited = session.visited → later.graph = session.graph →
      Follows disk plan entry session (.ok []) later []
  /-- The root of its project cannot be sought. -/
  | rootless {fault : Files.Fault} :
      disk.isFile (disk.place entry) = .ok true → disk.place entry ∉ session.visited →
      disk.rootOf plan.conventions (disk.place entry) = .error fault →
      Follows disk plan entry session (.error (.files fault)) session []
  /-- The sweep from the entry gives the files. -/
  | searched {root : Option Path} {later : Session} :
      disk.isFile (disk.place entry) = .ok true → disk.place entry ∉ session.visited →
      disk.rootOf plan.conventions (disk.place entry) = .ok root →
      later.visited = (disk.sweep plan root session.visited (disk.place entry)).known →
      later.graph.nodes = session.graph.nodes ++
        (disk.sweep plan root session.visited (disk.place entry)).taken.map
          (fun y => (y.1, (y.2 : Int))) →
      Follows disk plan entry session
        (.ok ((disk.sweep plan root session.visited (disk.place entry)).taken.map Prod.fst)) later
        (disk.sweep plan root session.visited (disk.place entry)).taken

/-- Following an entry on a disk is decided by the disk. -/
theorem World.Follows.of_disk {disk : Disk} {plan : Plan} {entry : Text} {session later : Session}
    {answer : Except Trouble (List Path)} {steps : List Step}
    (h : disk.world.Follows plan entry session answer later steps) (ha : session.Aligned) :
    disk.Follows plan entry session answer later (steps.flatMap Step.reports) := by
  have hplace : disk.world.place entry = disk.place entry := rfl
  have hsought : ∀ history, disk.world.rootOf plan.conventions (disk.place entry) history =
      disk.rootOf plan.conventions (disk.place entry) :=
    disk.world_findRoot plan.conventions (disk.place entry)
  cases h with
  | @skipped history warning hskip =>
    refine .skipped (Or.inl fun hisFile => ?_) rfl rfl
    have hholds := disk.holds_of_isFile _ hisFile
    exact hskip.elim (fun hn => hn hholds) fun hn => hn hisFile
  | known hisFile hold => exact .skipped (Or.inr hold) rfl rfl
  | @rootless _ earlier _ hisFile hnew hroot =>
    exact .rootless hisFile hnew ((hsought earlier).symm.trans hroot)
  | @searched _ earlier root steps final hisFile hnew hroot hruns hover =>
    rw [hplace] at hisFile hnew hroot hruns
    have hsame := (hsought earlier).symm.trans hroot
    have hready := Disk.ready_place ha.nodup hnew hisFile hsame
    obtain ⟨hmirrors, htaken⟩ := hruns.eq_sweep hover ha hready
    have hnodes := hmirrors.nodes_eq
    rw [hready.items_eq plan] at hnodes
    rw [← htaken, hmirrors.found_eq]
    exact .searched hisFile hnew hsame hmirrors.visited_eq hnodes

/-- An entry that is followed on a disk comes to what the disk decides. -/
theorem Disk.follow_run (disk : Disk) (plan : Plan) {session : Session} (ha : session.Aligned)
    (entry : Text) (history : History) :
    ∃ answer later reached read after, disk.Follows plan entry session answer later reached ∧
      later.Aligned ∧ Adds history after reached read ∧
      (follow disk.surroundings plan entry session).run history = ((answer, later), after) := by
  obtain ⟨answer, later, steps, after, hfollows, hadds, hrun⟩ :=
    Traversal.follow_run disk.world plan ha entry history
  exact ⟨answer, later, _, _, after, hfollows.of_disk ha, (hfollows.extends ha).1, hadds, hrun⟩

end SourceLoom.Traversal
