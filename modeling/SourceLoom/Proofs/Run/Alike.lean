import SourceLoom.Proofs.Run.Asking

/-!
# Trees that are alike to a run

Two trees are alike to a part of a run if it says the same and ends the same on both, and changes
neither. Weaving files is such a part where the two trees have the same bytes at their paths.
-/

namespace SourceLoom.Run.Rehearsal

open Files

variable {ε α β : Type} {tree other : Tree} {cwd : Path} {options : Options}

/-- A part of a run says the same and ends the same on two trees, and changes neither. -/
def Alike (tree other : Tree) (x : ExceptT ε (StateM Rehearsal) α) : Prop :=
  ∀ lines, ∃ answer said, x.run.run ⟨tree, lines⟩ = (answer, ⟨tree, said⟩) ∧
    x.run.run ⟨other, lines⟩ = (answer, ⟨other, said⟩)

namespace Alike

/-- To an answer that is known all trees are alike. -/
protected theorem pure (a : α) : Alike tree other (pure a : ExceptT ε (StateM Rehearsal) α) :=
  fun lines => ⟨.ok a, lines, rfl, rfl⟩

/-- To a fault that is known all trees are alike. -/
protected theorem throw (e : ε) : Alike tree other (throw e : ExceptT ε (StateM Rehearsal) α) :=
  fun lines => ⟨.error e, lines, rfl, rfl⟩

/-- Trees that are alike to two parts of a run are alike to one after the other. -/
protected theorem bind {x : ExceptT ε (StateM Rehearsal) α}
    {f : α → ExceptT ε (StateM Rehearsal) β} (hx : Alike tree other x)
    (hf : ∀ a, Alike tree other (f a)) : Alike tree other (x >>= f) := by
  intro lines
  obtain ⟨answer, said, hfirst, hsecond⟩ := hx lines
  rw [run_bind, run_bind, hfirst, hsecond]
  cases answer with
  | error e => exact ⟨.error e, said, rfl, rfl⟩
  | ok a => exact hf a said

/-- A part of a run that some tree is alike to itself for does not change it. -/
theorem tree_eq {x : ExceptT ε (StateM Rehearsal) α} {rehearsal later : Rehearsal}
    {answer : Except ε α} (h : Alike rehearsal.tree rehearsal.tree x)
    (hrun : x.run.run rehearsal = (answer, later)) : later.tree = rehearsal.tree := by
  obtain ⟨same, said, hfirst, -⟩ := h rehearsal.lines
  cases hfirst.symm.trans hrun
  rfl

/-- Trees that answer a question in the same way are alike to the question. -/
theorem of_asks {x : ExceptT ε (StateM Rehearsal) α} {answer : Tree → ExceptT ε Id α}
    (h : Asks x answer) (hsame : answer other = answer tree) : Alike tree other x := by
  intro lines
  rw [h, h]
  exact ⟨answer tree, lines, rfl, by rw [hsame]⟩

/-- Trees that are alike to an operation are alike to taking its outcome as an answer. -/
theorem attempt {x : ExceptT Fault (StateM Rehearsal) α} (h : Alike tree other x) :
    Alike tree other (Files.attempt x : ExceptT ε (StateM Rehearsal) _) := by
  intro lines
  obtain ⟨answer, said, hfirst, hsecond⟩ := h lines
  refine ⟨.ok answer, said, ?_, ?_⟩
  · change (Except.ok (x.run.run ⟨tree, lines⟩).1, (x.run.run ⟨tree, lines⟩).2) = _
    rw [hfirst]
  · change (Except.ok (x.run.run ⟨other, lines⟩).1, (x.run.run ⟨other, lines⟩).2) = _
    rw [hsecond]

/-- Trees that are alike to a part of a run are alike to it where its faults go by another name. -/
theorem adapt {ι : Type} {x : ExceptT ι (StateM Rehearsal) α} (f : ι → ε)
    (h : Alike tree other x) : Alike tree other (x.adapt f) := by
  intro lines
  obtain ⟨answer, said, hfirst, hsecond⟩ := h lines
  refine ⟨answer.mapError f, said, ?_, ?_⟩
  · change (Except.mapError _ (x.run.run ⟨tree, lines⟩).1, (x.run.run ⟨tree, lines⟩).2) = _
    rw [hfirst]
  · change (Except.mapError _ (x.run.run ⟨other, lines⟩).1, (x.run.run ⟨other, lines⟩).2) = _
    rw [hsecond]

/-- Trees that are alike to an operation are alike to it where its fault ends the run. -/
theorem need {x : ExceptT Fault (StateM Rehearsal) α} (h : Alike tree other x) :
    Alike tree other (Run.need x) := h.adapt _

/-- All trees are alike to a notice. -/
theorem say (notice : Notice) :
    Alike tree other (liftM ((host cwd).say options notice) :
      ExceptT ε (StateM Rehearsal) Unit) := by
  intro lines
  unfold Host.say
  split
  · exact ⟨.ok (), lines ++ [notice.toText], rfl, rfl⟩
  · exact ⟨.ok (), lines, rfl, rfl⟩

/-- All trees are alike to a failure. -/
theorem fail (message : Text) :
    Alike tree other ((host cwd).fail options message : ExceptT _ (StateM Rehearsal) α) :=
  (say _).bind fun _ => .throw _

/-- All trees are alike to a list of notices. -/
theorem sayAll (notices : List Notice) :
    Alike tree other (liftM ((host cwd).sayAll options notices) :
      ExceptT ε (StateM Rehearsal) Unit) := by
  induction notices with
  | nil => exact .pure ()
  | cons notice notices ih =>
    have hsay : Alike tree other (liftM ((host cwd).say options notice) :
      ExceptT ε (StateM Rehearsal) Unit) := say notice
    exact hsay.bind fun _ => ih

end Alike

/-- Trees that have the same bytes at some paths are alike to weaving the files there. -/
theorem alike_blocks {level : Option Minify.Level} {files : List Path}
    (h : ∀ file ∈ files, other.read file = tree.read file) :
    Alike tree other (Document.blocks (host cwd).files
      (fun event => (host cwd).say options (.ofDocument event)) level files) := by
  induction files with
  | nil => exact .pure []
  | cons file files ih =>
    have hmore := ih fun file hfile => h file (List.mem_cons_of_mem _ hfile)
    have hasks : Asks ((host cwd).files.read file) fun tree => tree.frozen.read file :=
      fun _ => rfl
    have hread : Alike tree other ((host cwd).files.readText file) :=
      (Alike.of_asks hasks (h file List.mem_cons_self)).bind fun bytes => .pure _
    refine hread.attempt.bind fun answer => ?_
    cases answer with
    | error fault =>
      cases fault with
      | nullInPath => exact .throw _
      | failed cause path => exact (Alike.say _).bind fun _ => hmore
    | ok content =>
      dsimp only
      cases Document.Block.of level file content with
      | error fault => exact .throw _
      | ok block =>
        have hwoven : Alike tree other (do
            liftM ((host cwd).say options (.ofDocument (.woven file)))
            return block :: (← Document.blocks (host cwd).files
              (fun event => (host cwd).say options (.ofDocument event)) level files)) :=
          (Alike.say _).bind fun _ => hmore.bind fun _ => .pure _
        dsimp only
        split
        · exact (Alike.say _).bind fun _ => hwoven
        · exact hwoven

/-- Trees that have the same bytes at the paths of a selection are alike to composing its document,
if the project is not drawn. -/
theorem alike_compose (conventions : Conventions) {selection : Selection}
    (hdrawing : options.drawing = false)
    (h : ∀ file ∈ selection.files, other.read file = tree.read file) :
    Alike tree other (compose (host cwd) options conventions selection) := by
  have hdrawn : drawings (host cwd) options conventions selection = pure none := by
    unfold drawings
    rw [hdrawing]
    rfl
  refine (Alike.say _).bind fun _ => ?_
  rw [hdrawn]
  refine (Alike.pure none).bind fun drawn => ?_
  exact ((alike_blocks h).bind fun _ => .pure _).adapt _

end SourceLoom.Run.Rehearsal
