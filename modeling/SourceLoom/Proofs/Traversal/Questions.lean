import SourceLoom.Proofs.Traversal.World

/-!
# Questions

Seeking a root and resolving a reference only ask where files are: no report is made and no file
is read. Whatever a world answers, the root is a directory above the file, and a reference leads
to one of its candidates, whose paths are normal. A disk gives the same answer at any time.

What passes between two histories is a list of exchanges, and many facts about it only depend on
the kinds of these exchanges.
-/

namespace SourceLoom.Traversal

open Reference BreadthFirst

/-- What a part of a session adds to a history: so many reports, and so many files read. -/
structure Adds (before after : History) (reached : List (Path × Nat)) (read : List Path) :
    Prop where
  /-- The reports come after the earlier ones. -/
  reports_eq : reports after = reports before ++ reached
  /-- The files read come after the earlier ones. -/
  reads_eq : reads after = reads before ++ read

/-- Nothing is added where nothing happens. -/
theorem Adds.refl (history : History) : Adds history history [] [] where
  reports_eq := (List.append_nil _).symm
  reads_eq := (List.append_nil _).symm

/-- What two parts add comes one after the other. -/
theorem Adds.trans {h₁ h₂ h₃ : History} {reached₁ reached₂ : List (Path × Nat)}
    {read₁ read₂ : List Path} (h : Adds h₁ h₂ reached₁ read₁) (h' : Adds h₂ h₃ reached₂ read₂) :
    Adds h₁ h₃ (reached₁ ++ reached₂) (read₁ ++ read₂) where
  reports_eq := by rw [h'.reports_eq, h.reports_eq, List.append_assoc]
  reads_eq := by rw [h'.reads_eq, h.reads_eq, List.append_assoc]

/-- Reading a file adds it to the files read. -/
theorem adds_readText (history : History) (path : Path) (answer : Except Files.Fault Text) :
    Adds history (history ++ [.readText path answer]) [] [path] where
  reports_eq := List.filterMap_append ..
  reads_eq := List.filterMap_append ..

/-- Telling of an event adds its report, if it is one. -/
theorem adds_told (history : History) (event : Event) :
    Adds history (history ++ [.told event]) event.report?.toList [] where
  reports_eq := by
    rw [reports, List.filterMap_append]
    cases event <;> rfl
  reads_eq := List.filterMap_append ..

/-- Whether an exchange is neither a report, nor the reading of a file, nor news of a root. -/
def Exchange.IsSilent : Exchange → Prop
  | holds _ _ | isFile _ _ | told (.unresolved _ _) | told (.warned _) => True
  | readText _ _ | told (.reached _ _) | told (.rootSought _ _) => False

/-- Between two histories only exchanges of one kind passed. -/
def Passes (kind : Exchange → Prop) (before after : History) : Prop :=
  ∃ passed, after = before ++ passed ∧ ∀ exchange ∈ passed, kind exchange

section Passing

variable {kind other : Exchange → Prop} {h₁ h₂ h₃ : History}

/-- Nothing passes where nothing happens. -/
theorem Passes.refl (history : History) : Passes kind history history :=
  ⟨[], (List.append_nil history).symm, nofun⟩

/-- What passes in two parts passes in all. -/
theorem Passes.trans (h : Passes kind h₁ h₂) (h' : Passes kind h₂ h₃) : Passes kind h₁ h₃ := by
  obtain ⟨first, rfl, hfirst⟩ := h
  obtain ⟨second, rfl, hsecond⟩ := h'
  refine ⟨first ++ second, List.append_assoc .., ?_⟩
  intro exchange hmem
  rcases List.mem_append.mp hmem with hmem | hmem
  · exact hfirst exchange hmem
  · exact hsecond exchange hmem

/-- One exchange passes by itself. -/
theorem Passes.one (history : History) {exchange : Exchange} (h : kind exchange) :
    Passes kind history (history ++ [exchange]) := by
  refine ⟨[exchange], rfl, ?_⟩
  intro passed hmem
  rw [List.mem_singleton.mp hmem]
  exact h

/-- What is of one kind may be of a wider one. -/
theorem Passes.mono (hkind : ∀ exchange, kind exchange → other exchange)
    (h : Passes kind h₁ h₂) : Passes other h₁ h₂ := by
  obtain ⟨passed, hafter, hall⟩ := h
  exact ⟨passed, hafter, fun exchange hmem => hkind exchange (hall exchange hmem)⟩

/-- The earlier history stays. -/
theorem Passes.isPrefix (h : Passes kind h₁ h₂) : h₁ <+: h₂ := by
  obtain ⟨passed, rfl, -⟩ := h
  exact List.prefix_append h₁ passed

/-- An observation that sees none of the exchanges that passed is not changed. -/
theorem Passes.filterMap_eq {β : Type} {see : Exchange → Option β}
    (hsee : ∀ exchange, kind exchange → see exchange = none) (h : Passes kind h₁ h₂) :
    h₂.filterMap see = h₁.filterMap see := by
  obtain ⟨passed, rfl, hall⟩ := h
  have hnone : passed.filterMap see = [] :=
    List.filterMap_eq_nil_iff.mpr fun exchange hmem => hsee exchange (hall exchange hmem)
  rw [List.filterMap_append, hnone, List.append_nil]

/-- What is silent adds neither reports nor files read. -/
theorem Passes.adds (h : Passes Exchange.IsSilent h₁ h₂) : Adds h₁ h₂ [] [] where
  reports_eq := by
    rw [List.append_nil]
    refine h.filterMap_eq fun exchange hsilent => ?_
    match exchange, hsilent with
    | .holds _ _, _ | .isFile _ _, _ | .told (.unresolved _ _), _ | .told (.warned _), _ => rfl
  reads_eq := by
    rw [List.append_nil]
    refine h.filterMap_eq fun exchange hsilent => ?_
    match exchange, hsilent with
    | .holds _ _, _ | .isFile _ _, _ | .told _, _ => rfl

end Passing

/-- One action runs after another. -/
theorem run_bind {σ α β : Type} (x : StateM σ α) (f : α → StateM σ β) (state : σ) :
    (x >>= f).run state = (f (x.run state).1).run (x.run state).2 := rfl

/-- A search asks about its first path, and goes on if that does not pass. -/
theorem firstWhere_cons {σ : Type} {test : Path → ExceptT Files.Fault (StateM σ) Bool}
    (path : Path) (paths : List Path) (state : σ) :
    (firstWhere test (path :: paths)).run.run state =
      match (test path).run.run state with
      | (.error fault, after) => (.error fault, after)
      | (.ok true, after) => (.ok (some path), after)
      | (.ok false, after) => (firstWhere test paths).run.run after := by
  have hrun : (firstWhere test (path :: paths)).run =
      (test path).run >>= fun
        | .error fault => pure (.error fault)
        | .ok true => pure (.ok (some path))
        | .ok false => (firstWhere test paths).run := by
    rw [firstWhere, ExceptT.run_bind]
    congr 1
    funext answer
    rcases answer with fault | _ | _ <;> rfl
  rw [hrun, run_bind]
  rcases (test path).run.run state with ⟨fault | _ | _, after⟩ <;> rfl

variable {test : Path → ExceptT Files.Fault (StateM History) Bool}

/-- In a search nothing passes but what passes in its tests. -/
theorem firstWhere_passes {kind : Exchange → Prop}
    (ht : ∀ path history, Passes kind history ((test path).run.run history).2)
    (paths : List Path) (history : History) :
    Passes kind history ((firstWhere test paths).run.run history).2 := by
  induction paths generalizing history with
  | nil => exact Passes.refl history
  | cons path paths ih =>
    have hp := ht path history
    rw [firstWhere_cons]
    generalize (test path).run.run history = asked at hp ⊢
    obtain ⟨fault | _ | _, after⟩ := asked
    · exact hp
    · exact hp.trans (ih after)
    · exact hp

/-- A search finds one of its paths, for which the test was passed. -/
theorem firstWhere_found {σ : Type} {test : Path → ExceptT Files.Fault (StateM σ) Bool}
    {paths : List Path} {state : σ} {path : Path}
    (h : ((firstWhere test paths).run.run state).1 = .ok (some path)) :
    path ∈ paths ∧ ∃ earlier, ((test path).run.run earlier).1 = .ok true := by
  induction paths generalizing state with
  | nil => cases h
  | cons first paths ih =>
    rw [firstWhere_cons] at h
    cases hasked : (test first).run.run state with
    | mk answer after =>
      rw [hasked] at h
      rcases answer with fault | _ | _
      · cases h
      · exact ⟨List.mem_cons_of_mem _ (ih h).1, (ih h).2⟩
      · cases h
        exact ⟨List.mem_cons_self, state, congrArg Prod.fst hasked⟩

/-- If a test always gives the same answers, so does a search. -/
theorem firstWhere_steady {answer : Path → Except Files.Fault Bool}
    (ht : ∀ path history, ((test path).run.run history).1 = answer path) (paths : List Path)
    (history : History) : ((firstWhere test paths).run.run history).1 =
      Id.run (firstWhere (fun path => ExceptT.mk (m := Id) (answer path)) paths).run := by
  induction paths generalizing history with
  | nil => rfl
  | cons path paths ih =>
    have hp := ht path history
    rw [firstWhere_cons, firstWhere]
    generalize (test path).run.run history = asked at hp ⊢
    obtain ⟨fault | _ | _, after⟩ := asked
    · simp only [ExceptT.run_bind, ExceptT.run_mk, ← hp]
      rfl
    · simp only [ExceptT.run_bind, ExceptT.run_mk, ← hp]
      exact ih after
    · simp only [ExceptT.run_bind, ExceptT.run_mk, ← hp]
      rfl

/-- A directory above another has no other names than it. -/
theorem mem_of_mem_upwardFrom {start : Start} {names : List Name} {path : Path}
    (h : path ∈ Path.upwardFrom start names) {name : Name} (hname : name ∈ path.names) :
    name ∈ names := by
  induction names with
  | nil =>
    rw [List.mem_singleton.mp h] at hname
    exact absurd hname List.not_mem_nil
  | cons last above ih =>
    rcases List.mem_cons.mp h with rfl | h
    · exact List.mem_reverse.mp hname
    · exact List.mem_cons_of_mem _ (ih h)

/-- The root of a project is clean if its file is. -/
theorem findRoot_isClean {conventions : Conventions} {cwd file directory : Path}
    {history : History} (hfile : file.IsClean) (hcwd : cwd.IsNormal)
    (h : ((findRoot conventions test cwd file).run.run history).1 = .ok (some directory)) :
    directory.IsClean := by
  have hmem := List.mem_of_mem_take (firstWhere_found h).1
  intro name hname
  have hin := mem_of_mem_upwardFrom hmem hname
  exact (hfile.absolute hcwd).isClean.parent name (List.mem_reverse.mp hin)

/-- The place that a reference names is clean. -/
theorem place?_isClean {conventions : Conventions} {cwd file place : Path} {root : Option Path}
    {reference : Text} (hcwd : cwd.IsNormal) (hfile : file.IsClean)
    (hroot : ∀ directory ∈ root, directory.IsClean)
    (h : place? conventions cwd file root reference = some place) : place.IsClean := by
  unfold place? at h
  split at h
  · obtain ⟨directory, hd, rfl⟩ := Option.map_eq_some_iff.mp h
    exact (((hroot directory hd).child _).child _).collapse
  · cases h
    exact ((hfile.absolute hcwd).isClean.parent.child reference).collapse

/-- Every candidate for a clean place is normal. -/
theorem candidates_isNormal {conventions : Conventions} {cwd place path : Path}
    (hcwd : cwd.IsNormal) (hplace : place.IsClean)
    (h : path ∈ candidates conventions cwd place) : path.IsNormal := by
  simp only [candidates, List.cons_append, List.mem_cons, List.mem_append, List.mem_map] at h
  rcases h with rfl | ⟨ending, -, rfl⟩ | ⟨ending, -, rfl⟩
  · exact hplace.absolute hcwd
  · exact Path.absolute_ofText_isNormal _ hcwd
  · exact (hplace.child _).absolute hcwd

/-- With a file and a reference a resolution is a search among the candidates. -/
theorem resolve_run {m : Type → Type} [Monad m] {conventions : Conventions}
    {isFile : Path → ExceptT Files.Fault m Bool} {cwd : Path} {reference file : Text}
    {root : Option Path} (hfile : file ≠ []) (hreference : reference ≠ []) :
    (resolve conventions isFile cwd reference file root).run =
      match place? conventions cwd (.ofText file) root reference with
      | none => pure (.ok none)
      | some place =>
        Except.mapError Trouble.files <$> (firstWhere isFile (candidates conventions cwd place)).run
    := by
  unfold resolve
  rw [if_neg hfile, if_neg hreference]
  cases place? conventions cwd (.ofText file) root reference <;> rfl

/-- What a fault is called does not matter where there is none. -/
theorem mapError_eq_ok {ε ε' α : Type} {x : Except ε α} {f : ε → ε'} {a : α} :
    x.mapError f = .ok a ↔ x = .ok a := by
  cases x with
  | error fault => exact ⟨nofun, nofun⟩
  | ok b => simp only [Except.mapError, Except.ok.injEq]

/-- A reference that leads to a file names a place, and leads to one of its candidates. -/
theorem exists_mem_candidates {σ : Type} {conventions : Conventions} {cwd path : Path}
    {isFile : Path → ExceptT Files.Fault (StateM σ) Bool} {state : σ} {reference file : Text}
    {root : Option Path}
    (h : ((resolve conventions isFile cwd reference file root).run.run state).1 = .ok (some path)) :
    ∃ place, place? conventions cwd (.ofText file) root reference = some place ∧
      path ∈ candidates conventions cwd place := by
  by_cases hfile : file = []
  · rw [resolve, if_pos hfile] at h
    cases h
  · by_cases hreference : reference = []
    · rw [resolve, if_neg hfile, if_pos hreference] at h
      cases h
    · rw [resolve_run hfile hreference] at h
      cases hplace : place? conventions cwd (.ofText file) root reference with
      | none =>
        rw [hplace] at h
        cases h
      | some place =>
        rw [hplace] at h
        have hsearch : ((firstWhere isFile (candidates conventions cwd place)).run.run state).1 =
            .ok (some path) := mapError_eq_ok.mp h
        exact ⟨place, rfl, (firstWhere_found hsearch).1⟩

/-- The files of an answer without a fault are those that it gives. -/
@[simp] theorem flatten_toOption_ok {ε α : Type} (given : List α) :
    (Except.ok given : Except ε (List α)).toOption.toList.flatten = given :=
  List.append_nil given

/-- A local reference is not empty. -/
theorem ne_nil_of_isLocal {conventions : Conventions} {reference : Text}
    (h : isLocal conventions reference = true) : reference ≠ [] := by
  rintro rfl
  cases h

namespace World

variable (world : World) (conventions : Conventions) (root : Option Path)

/-- The file that a reference in a file leads to, if it is resolved after a history. -/
def resolved (file : Path) (reference : Text) (history : History) :
    Except Trouble (Option Path) :=
  ((resolve conventions world.surroundings.isFile world.cwd reference file.toText root).run.run
    history).1

variable {conventions} {file : Path} {reference : Text}

/-- Resolving a reference only asks where files are. -/
theorem resolve_passes (history : History) :
    Passes Exchange.IsSilent history ((resolve conventions world.surroundings.isFile world.cwd
      reference file.toText root).run.run history).2 := by
  have hasks : ∀ path h,
      Passes Exchange.IsSilent h ((world.surroundings.isFile path).run.run h).2 :=
    fun path h => Passes.one h trivial
  by_cases hfile : file.toText = []
  · rw [resolve, if_pos hfile]
    exact Passes.refl history
  · by_cases hreference : reference = []
    · rw [resolve, if_neg hfile, if_pos hreference]
      exact Passes.refl history
    · rw [resolve_run hfile hreference]
      cases place? conventions world.cwd (.ofText file.toText) root reference with
      | none => exact Passes.refl history
      | some place =>
        exact firstWhere_passes hasks (candidates conventions world.cwd place) history

/-- A local reference in an absolute path is resolved by a search among the candidates for the place
that it names. -/
theorem resolved_eq {root : Option Path} (hfile : file.isAbsolute = true)
    (hlocal : isLocal conventions reference = true) (history : History) :
    world.resolved conventions root file reference history =
      match place? conventions world.cwd (.ofText file.toText) root reference with
      | none => .ok none
      | some place => Except.mapError Trouble.files ((firstWhere world.surroundings.isFile
          (candidates conventions world.cwd place)).run.run history).1 := by
  unfold resolved
  rw [resolve_run (Path.toText_ne_nil hfile) (ne_nil_of_isLocal hlocal)]
  cases place? conventions world.cwd (.ofText file.toText) root reference <;> rfl

/-- What resolving a local reference in an absolute path comes to: it fails at a file, or it leads
to nothing, or it leads to a normal path at which a regular file was seen. It is no misuse. -/
theorem resolved_cases {root : Option Path} (hfile : file.isAbsolute = true)
    (hlocal : isLocal conventions reference = true)
    (hroot : ∀ directory ∈ root, directory.IsClean) (history : History) :
    (∃ fault, world.resolved conventions root file reference history = .error (.files fault)) ∨
      world.resolved conventions root file reference history = .ok none ∨
      ∃ target : Path, target.IsNormal ∧ (∃ earlier, world.isFile earlier target = .ok true) ∧
        world.resolved conventions root file reference history = .ok (some target) := by
  rw [world.resolved_eq hfile hlocal history]
  cases hp : place? conventions world.cwd (.ofText file.toText) root reference with
  | none => exact Or.inr (Or.inl rfl)
  | some place =>
    dsimp only
    cases hr : ((firstWhere world.surroundings.isFile
        (candidates conventions world.cwd place)).run.run history).1 with
    | error fault => exact Or.inl ⟨fault, rfl⟩
    | ok found =>
      cases found with
      | none => exact Or.inr (Or.inl rfl)
      | some target =>
        have hclean := place?_isClean world.cwd_isNormal (Path.ofText_isClean _) hroot hp
        obtain ⟨hmem, hseen⟩ := firstWhere_found hr
        exact Or.inr (Or.inr ⟨target, candidates_isNormal world.cwd_isNormal hclean hmem,
          hseen, rfl⟩)

/-- Seeking the root of a project only asks where files are. -/
theorem findRoot_passes (conventions : Conventions) (file : Path) (history : History) :
    Passes Exchange.IsSilent history ((findRoot conventions world.surroundings.holds world.cwd
      file).run.run history).2 := by
  have hasks : ∀ path h,
      Passes Exchange.IsSilent h ((world.surroundings.holds path).run.run h).2 :=
    fun path h => Passes.one h trivial
  exact firstWhere_passes (fun directory h => hasks (directory.child conventions.markerFile) h) _
    history

end World

namespace Disk

variable {disk : Disk} {conventions : Conventions} {root : Option Path} {file : Path}

/-- A disk resolves a local reference in an absolute path in the same way at any time. -/
theorem world_resolved {reference : Text} (hfile : file.isAbsolute = true)
    (hlocal : isLocal conventions reference = true) (history : History) :
    disk.world.resolved conventions root file reference history =
      disk.resolved conventions root file reference := by
  have hsteady : ∀ path h, ((disk.world.surroundings.isFile path).run.run h).1 = disk.isFile path :=
    fun path h => rfl
  unfold Disk.resolved
  rw [disk.world.resolved_eq hfile hlocal history,
    resolve_run (Path.toText_ne_nil hfile) (ne_nil_of_isLocal hlocal)]
  rw [show disk.world.cwd = disk.cwd from rfl]
  cases place? conventions disk.cwd (.ofText file.toText) root reference with
  | none => rfl
  | some place =>
    have hsearch := firstWhere_steady hsteady (candidates conventions disk.cwd place) history
    exact congrArg (Except.mapError Trouble.files) hsearch

/-- A disk gives the same root of a project at any time. -/
theorem world_findRoot (disk : Disk) (conventions : Conventions) (file : Path)
    (history : History) :
    ((findRoot conventions disk.world.surroundings.holds disk.cwd file).run.run history).1 =
      disk.rootOf conventions file :=
  firstWhere_steady (fun _ _ => rfl) _ history

end Disk

end SourceLoom.Traversal
