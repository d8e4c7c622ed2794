import SourceLoom.Proofs.Run.Repeating
import SourceLoom.Proofs.Traversal.Questions

/-!
# Parts of a run that only look

A run changes the file tree only when it delivers what it made. Everything before only looks:
reading the settings, following imports or scanning and choosing, drawing the project, and weaving.
These parts may say something and they may fail, but they leave every tree as it is.
-/

namespace SourceLoom.Run.Rehearsal

open Files

variable {ε α β : Type} {tree : Tree} {cwd : Path} {options : Options}

/-- An action leaves a tree as it is, whatever it says. -/
def Spares (tree : Tree) (x : StateM Rehearsal α) : Prop :=
  ∀ lines, ∃ answer said, x.run ⟨tree, lines⟩ = (answer, ⟨tree, said⟩)

namespace Spares

/-- An answer that is known changes nothing. -/
protected theorem pure (a : α) : Spares tree (pure a) := fun lines => ⟨a, lines, rfl⟩

/-- Two actions that leave a tree as it is do so one after the other. -/
protected theorem bind {x : StateM Rehearsal α} {f : α → StateM Rehearsal β} (hx : Spares tree x)
    (hf : ∀ a, Spares tree (f a)) : Spares tree (x >>= f) := by
  intro lines
  obtain ⟨answer, said, hrun⟩ := hx lines
  rw [StateT.run_bind, hrun]
  exact hf answer said

/-- A part of a run leaves a tree as it is just if its action does. -/
theorem iff_alike {x : ExceptT ε (StateM Rehearsal) α} :
    Spares tree x.run ↔ Alike tree tree x := by
  constructor
  · intro h lines
    obtain ⟨answer, said, hrun⟩ := h lines
    exact ⟨answer, said, hrun, hrun⟩
  · intro h lines
    obtain ⟨answer, said, hrun, -⟩ := h lines
    exact ⟨answer, said, hrun⟩

/-- An action that leaves a tree as it is does so as a part of a run. -/
theorem lift {x : StateM Rehearsal α} (h : Spares tree x) :
    Alike tree tree (ExceptT.lift x : ExceptT ε (StateM Rehearsal) α) :=
  iff_alike.mp (h.bind fun _ => .pure _)

/-- What a part of a run comes to can be asked for. -/
theorem of_alike {x : ExceptT ε (StateM Rehearsal) α} (h : Alike tree tree x) :
    Spares tree x.run := iff_alike.mpr h

/-- A notice changes nothing. -/
theorem say (notice : Notice) : Spares tree ((host cwd).say options notice) := by
  intro lines
  unfold Host.say
  split
  · exact ⟨(), lines ++ [notice.toText], rfl⟩
  · exact ⟨(), lines, rfl⟩

/-- Notices change nothing. -/
theorem sayAll (notices : List Notice) : Spares tree ((host cwd).sayAll options notices) := by
  induction notices with
  | nil => exact .pure ()
  | cons notice notices ih => exact (say notice).bind fun _ => ih

end Spares

namespace Alike

/-- A search for the first path that passes a test changes nothing if the test does not. -/
theorem firstWhere {test : Path → ExceptT Fault (StateM Rehearsal) Bool}
    (htest : ∀ path, Alike tree tree (test path)) (paths : List Path) :
    Alike tree tree (Reference.firstWhere test paths) := by
  induction paths with
  | nil => exact .pure none
  | cons path paths ih =>
    refine (htest path).bind fun passed => ?_
    cases passed
    · exact ih
    · exact .pure _

end Alike

/-- What a path leads to can be asked for without changing anything. -/
structure Answers (tree : Tree) (cwd path : Path) : Prop where
  /-- Whether it leads to anything. -/
  holds : Alike tree tree ((host cwd).files.holds path)
  /-- Whether it leads to a file. -/
  isFile : Alike tree tree ((host cwd).files.isFile path)
  /-- Whether it leads to a directory. -/
  isDirectory : Alike tree tree ((host cwd).files.isDirectory path)
  /-- The names in the directory. -/
  list : Alike tree tree ((host cwd).files.list path)
  /-- The bytes of the file. -/
  read : Alike tree tree ((host cwd).files.read path)

/-- Whatever a path leads to, asking for it changes nothing. -/
theorem answers (tree : Tree) (cwd path : Path) : Answers tree cwd path where
  holds lines := ⟨_, lines, rfl, rfl⟩
  isFile lines := ⟨_, lines, rfl, rfl⟩
  isDirectory lines := ⟨_, lines, rfl, rfl⟩
  list lines := ⟨_, lines, rfl, rfl⟩
  read lines := ⟨_, lines, rfl, rfl⟩

/-- Reading a text changes nothing. -/
theorem alike_readText (path : Path) : Alike tree tree ((host cwd).files.readText path) :=
  (answers tree cwd path).read.bind fun _ => .pure _

section Following

open Traversal

variable {plan : Plan} {root : Option Path}

/-- The root of a project is sought without changing anything. -/
theorem alike_findRoot (conventions : Conventions) (file : Path) :
    Alike tree tree (Reference.findRoot conventions (host cwd).files.holds cwd file) :=
  .firstWhere (fun _ => (answers tree cwd _).holds) _

/-- A reference is resolved without changing anything. -/
theorem alike_resolve (conventions : Conventions) (reference file : Text) (root : Option Path) :
    Alike tree tree (Reference.resolve conventions (host cwd).files.isFile cwd reference file root)
    := by
  by_cases hfile : file = []
  · rw [Reference.resolve, if_pos hfile]
    exact fun lines => ⟨_, lines, rfl, rfl⟩
  · by_cases hreference : reference = []
    · rw [Reference.resolve, if_neg hfile, if_pos hreference]
      exact fun lines => ⟨_, lines, rfl, rfl⟩
    · refine Spares.iff_alike.mp ?_
      rw [resolve_run hfile hreference]
      cases Reference.place? conventions cwd (.ofText file) root reference with
      | none => exact .pure _
      | some place =>
        have hsearch : Alike tree tree (Reference.firstWhere (host cwd).files.isFile
            (Reference.candidates conventions cwd place)) :=
          .firstWhere (fun _ => (answers tree cwd _).isFile) _
        exact (Spares.of_alike hsearch).bind fun _ => .pure _

/-- Warning changes nothing. -/
theorem spares_warn (warning : Warning) (session : Session) :
    Spares tree (warn ((host cwd).traversal options) warning session) :=
  (Spares.sayAll _).bind fun _ => .pure _

/-- The references of a file are accounted for without changing anything. -/
theorem spares_expand (conventions : Conventions) (file : Path) (references : List Text)
    (children : List Path) (session : Session) :
    Spares tree (expand ((host cwd).traversal options) conventions root file references children
      session) := by
  induction references generalizing children session with
  | nil => exact .pure _
  | cons reference references ih =>
    unfold expand
    split
    · exact ih _ _
    · refine (Spares.of_alike (alike_resolve conventions reference file.toText root)).bind
        fun answer => ?_
      obtain (cause | fault) | _ | target := answer
      · exact .pure _
      · exact (spares_warn _ _).bind fun _ => ih _ _
      · exact (Spares.sayAll _).bind fun _ => ih _ _
      · exact ih _ _

/-- A file from the queue is visited without changing anything. -/
theorem spares_visit (file : Path) (depth : Nat) (search : Search) :
    Spares tree (visit ((host cwd).traversal options) plan root file depth search) := by
  refine (Spares.of_alike (answers tree cwd file).isFile).bind fun answer => ?_
  obtain fault | _ | _ := answer
  · exact (spares_warn _ _).bind fun _ => .pure _
  · exact .pure _
  · refine (Spares.sayAll _).bind fun _ => ?_
    split
    · exact .pure _
    · refine (Spares.of_alike (alike_readText file)).bind fun answer => ?_
      obtain fault | text := answer
      · exact (spares_warn _ _).bind fun _ => .pure _
      · refine (spares_expand _ _ _ _ _).bind fun expanded => ?_
        obtain ⟨cause | children, session⟩ := expanded
        · exact .pure _
        · exact .pure _

/-- Files are taken from the queue without changing anything. -/
theorem spares_run (limit : Nat) (search : Search) :
    Spares tree (Traversal.run ((host cwd).traversal options) plan root limit search) := by
  induction limit generalizing search with
  | zero => exact .pure _
  | succ limit ih =>
    unfold Traversal.run
    split
    · exact .pure _
    · refine (spares_visit _ _ _).bind fun visited => ?_
      obtain ⟨cause | _, later⟩ := visited
      · exact .pure _
      · exact ih _

/-- The imports of an entry are followed without changing anything. -/
theorem spares_follow (entry : Text) (session : Session) :
    Spares tree (follow ((host cwd).traversal options) plan entry session) := by
  have hstatus : Alike tree tree (do
      let present ← (host cwd).files.holds ((Path.ofText entry).absolute cwd)
      let isFile ← (host cwd).files.isFile ((Path.ofText entry).absolute cwd)
      return (present, isFile)) :=
    (answers tree cwd _).holds.bind fun _ =>
      (answers tree cwd _).isFile.bind fun _ => .pure _
  refine (Spares.of_alike hstatus).bind fun status => ?_
  obtain fault | ⟨_ | _, _ | _⟩ := status
  · exact (spares_warn _ _).bind fun _ => .pure _
  · exact (spares_warn _ _).bind fun _ => .pure _
  · exact (spares_warn _ _).bind fun _ => .pure _
  · exact (spares_warn _ _).bind fun _ => .pure _
  · dsimp only
    split
    · exact .pure _
    · refine (Spares.of_alike (alike_findRoot _ _)).bind fun sought => ?_
      obtain fault | root := sought
      · exact .pure _
      · refine (Spares.sayAll _).bind fun _ => (spares_run _ _).bind fun searched => ?_
        obtain ⟨cause | _, search⟩ := searched
        · exact .pure _
        · exact .pure _

/-- The imports of all entries are followed without changing anything. -/
theorem spares_followAll (entries : List Text) (session : Session) :
    Spares tree (followAll ((host cwd).traversal options) plan entries session) := by
  have heach : ∀ session, Spares tree
      (followEach ((host cwd).traversal options) plan entries session) := by
    induction entries with
    | nil => exact fun _ => .pure _
    | cons entry entries ih =>
      intro session
      refine (spares_follow _ _).bind fun followed => ?_
      obtain ⟨trouble | files, later⟩ := followed
      · exact .pure _
      · refine (ih later).bind fun more => ?_
        obtain ⟨trouble | others, last⟩ := more
        · exact .pure _
        · exact .pure _
  exact (heach session).bind fun _ => .pure _

end Following

section Drawing

variable {tell : Survey.Event → StateM Rehearsal Unit}

/-- The entries of a directory are outlined without changing anything. -/
theorem alike_entries (htell : ∀ event, Spares tree (tell event))
    {below : Path → ExceptT Fault (StateM Rehearsal) Outline}
    (hbelow : ∀ path, Alike tree tree (below path)) (level : Int) (directory : Path)
    (names : List Name) :
    Alike tree tree (Survey.entries (host cwd).files tell below level directory names) := by
  induction names with
  | nil => exact .pure _
  | cons name names ih =>
    unfold Survey.entries
    split
    · exact ih
    · refine (answers tree cwd _).isDirectory.attempt.bind fun answer => ?_
      obtain (⟨cause, place⟩ | _) | _ | _ := answer
      · exact (htell _).lift.bind fun _ => ih
      · exact .throw _
      · exact ih.bind fun _ => .pure _
      · refine (hbelow _).bind fun inner => ih.bind fun next => ?_
        split
        · exact .pure _
        · exact .pure _

/-- A directory is outlined without changing anything. -/
theorem alike_outlineFrom (htell : ∀ event, Spares tree (tell event)) (levels : Nat) (level : Int)
    (directory : Path) :
    Alike tree tree (Survey.outlineFrom (host cwd).files tell levels level directory) := by
  induction levels generalizing level directory with
  | zero => exact .pure _
  | succ levels ih =>
    refine (answers tree cwd directory).list.attempt.bind fun answer => ?_
    obtain (⟨cause, place⟩ | _) | names := answer
    · exact (htell _).lift.bind fun _ => .pure _
    · exact .throw _
    · exact alike_entries htell (ih _) _ _ _

/-- The drawings of a run change nothing. -/
theorem alike_drawings (conventions : Conventions) (selection : Selection) :
    Alike tree tree (drawings (host cwd) options conventions selection) := by
  unfold drawings
  split
  · exact .pure _
  · refine Alike.bind (Alike.need ?_) fun drawn => (Alike.say _).bind fun _ => .pure _
    exact (alike_findRoot _ _).bind fun _ =>
      (alike_outlineFrom (fun _ => .say _) _ _ _).bind fun _ => .pure _

/-- A document is composed without changing anything. -/
theorem alike_compose_self (conventions : Conventions) (selection : Selection) :
    Alike tree tree (compose (host cwd) options conventions selection) :=
  (Alike.say _).bind fun _ => (alike_drawings _ _).bind fun _ =>
    ((alike_blocks fun _ _ => rfl).bind fun _ => .pure _).adapt _

end Drawing

section Selecting

/-- The settings of a run are read without changing anything. -/
theorem alike_conventionsOf (yaml : Settings.YamlReader) :
    Alike tree tree (conventionsOf (host cwd) yaml options) := by
  unfold conventionsOf
  split
  · exact .pure _
  · exact .pure _
  · rename_i file _ _
    have hload : Spares tree (Settings.load (host cwd).files yaml (.ofText file)) := by
      refine (Spares.of_alike (answers tree cwd _).read).bind fun answer => ?_
      obtain (_ | ⟨cause, place⟩) | bytes := answer <;> exact .pure _
    refine hload.lift.bind fun answer => ?_
    obtain (refusal | cause) | conventions := answer
    · exact .fail _
    · exact .throw _
    · exact .pure _

/-- A scan selects files without changing anything. -/
theorem alike_scanned_self : Alike tree tree (scanned (host cwd) options) := by
  rw [scanned_eq]
  split
  · exact .throw _
  · refine (answers tree cwd _).isDirectory.need.bind fun isDirectory => ?_
    split
    · have hasks := asks_filesBelow cwd Scan.defaultExcluded pathLimit
        ((scannedDirectory cwd options).absolute cwd)
      exact (Alike.say _).bind fun _ => (Alike.of_asks hasks rfl).need.bind alike_chosen
    · exact .fail _

/-- Following the imports of entries selects files without changing anything. -/
theorem alike_followed (conventions : Conventions) (entries : List Text) :
    Alike tree tree (followed (host cwd) options conventions entries) := by
  refine (Alike.say _).bind fun _ => ?_
  by_cases hdepth : .depth ∈ options.valueless
  · rw [if_pos hdepth]
    exact fun lines => ⟨_, lines, rfl, rfl⟩
  · rw [if_neg hdepth]
    refine (spares_followAll _ _).lift.bind fun answer => ?_
    obtain ⟨(fault | cause) | _ | ⟨file, files⟩, session⟩ := answer
    · exact .throw _
    · exact .throw _
    · exact .fail _
    · exact .pure _

/-- With entries the files of a run are those that their imports lead to. There must be one. -/
theorem select_eq_followed {conventions : Conventions} (hentries : options.entries.getD [] ≠ []) :
    select (host cwd) options conventions =
      followed (host cwd) options conventions (options.entries.getD []) >>= fun selection =>
        if selection.files = [] then
          (host cwd).fail options "Error: No files found matching the specified patterns".toList
        else pure selection := by
  unfold select
  cases hoptions : options.entries with
  | none =>
    rw [hoptions] at hentries
    exact absurd rfl hentries
  | some entries =>
    rw [hoptions, Option.getD_some] at hentries
    obtain ⟨entry, others, rfl⟩ := List.exists_cons_of_ne_nil hentries
    refine bind_congr fun selection => ?_
    dsimp only
    by_cases hfiles : selection.files = []
    · rw [if_pos hfiles, if_pos hfiles]
      exact bind_assoc _ _ _
    · rw [if_neg hfiles, if_neg hfiles]

/-- The files of a run are selected without changing anything. -/
theorem alike_select_self (conventions : Conventions) :
    Alike tree tree (select (host cwd) options conventions) := by
  by_cases hentries : options.entries.getD [] = []
  · exact alike_select conventions hentries alike_scanned_self
  · rw [select_eq_followed hentries]
    refine (alike_followed conventions _).bind fun selection => ?_
    split
    · exact .fail _
    · exact .pure _

end Selecting

end SourceLoom.Run.Rehearsal
