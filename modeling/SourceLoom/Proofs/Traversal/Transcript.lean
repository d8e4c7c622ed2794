import SourceLoom.Proofs.Traversal.Steps

/-!
# Transcripts of steps

A transcript says what a step came to together with the histories before and after it. Whatever a
world answers, the references of a file have a transcript, and so has a file from the queue. The
transcript decides the session afterwards. While references are examined no file is reported or
read, and only the local ones are asked about.
-/

namespace SourceLoom.Traversal

open Reference BreadthFirst

/-- Whether an exchange can pass while the imports of one entry are followed: no root is sought. -/
def Exchange.IsOnWay : Exchange → Prop
  | told (.rootSought _ _) => False
  | _ => True

/-- What is silent can pass on the way. -/
theorem Exchange.IsSilent.isOnWay {exchange : Exchange} (h : exchange.IsSilent) :
    exchange.IsOnWay := by
  match exchange, h with
  | .holds _ _, _ | .isFile _ _, _ | .told (.unresolved _ _), _ | .told (.warned _), _ => trivial

/-- The references of a file are examined one after the other, in the history as it then is, and
each comes to a finding. A reference that is not local is left alone. -/
inductive World.Examines (world : World) (conventions : Conventions) (root : Option Path)
    (file : Path) : History → List (Text × Finding) → History → Prop
  /-- No reference is left. -/
  | done (history : History) : Examines world conventions root file history [] history
  /-- A reference names a package, and nothing is asked. -/
  | external {history later : History} {reference : Text} {findings : List (Text × Finding)} :
      isLocal conventions reference = false →
      Examines world conventions root file history findings later →
      Examines world conventions root file history ((reference, .external) :: findings) later
  /-- The candidates for a reference could not be examined. -/
  | faulty {history asked later : History} {reference : Text} {fault : Files.Fault}
      {findings : List (Text × Finding)} :
      isLocal conventions reference = true →
      (resolve conventions world.surroundings.isFile world.cwd reference file.toText root).run.run
        history = (.error (.files fault), asked) →
      Examines world conventions root file
        (asked ++ [.told (.warned (.referenceFault reference file fault))]) findings later →
      Examines world conventions root file history ((reference, .faulty fault) :: findings) later
  /-- A reference leads to no file. -/
  | missing {history asked later : History} {reference : Text}
      {findings : List (Text × Finding)} :
      isLocal conventions reference = true →
      (resolve conventions world.surroundings.isFile world.cwd reference file.toText root).run.run
        history = (.ok none, asked) →
      Examines world conventions root file (asked ++ [.told (.unresolved reference file)])
        findings later →
      Examines world conventions root file history ((reference, .missing) :: findings) later
  /-- A reference leads to a file. -/
  | leads {history asked later : History} {reference : Text} {target : Path}
      {findings : List (Text × Finding)} :
      isLocal conventions reference = true →
      (resolve conventions world.surroundings.isFile world.cwd reference file.toText root).run.run
        history = (.ok (some target), asked) →
      Examines world conventions root file asked findings later →
      Examines world conventions root file history ((reference, .leads target) :: findings) later

section Examining

variable {world : World} {conventions : Conventions} {root : Option Path} {file : Path}
  {history later : History} {findings : List (Text × Finding)}

namespace World.Examines

/-- What the references came to decides the children and the session afterwards. -/
theorem expand_run (h : world.Examines conventions root file history findings later)
    (children : List Path) (session : Session) :
    (expand world.surroundings conventions root file (findings.map Prod.fst) children session).run
      history = ((.ok (account file findings children session).1,
        (account file findings children session).2), later) := by
  induction h generalizing children session with
  | done history => rfl
  | external hlocal _ ih =>
    rw [List.map_cons, expand_cons_external hlocal]
    exact ih children _
  | faulty hlocal hresolve _ ih =>
    rw [List.map_cons, expand_cons_local hlocal, hresolve]
    exact ih children _
  | missing hlocal hresolve _ ih =>
    rw [List.map_cons, expand_cons_local hlocal, hresolve]
    exact ih children _
  | leads hlocal hresolve _ ih =>
    rw [List.map_cons, expand_cons_local hlocal, hresolve]
    exact ih _ _

/-- No file is reported or read, and no root is sought. -/
theorem passes (h : world.Examines conventions root file history findings later) :
    Passes Exchange.IsSilent history later := by
  have hasks : ∀ reference history, Passes Exchange.IsSilent history
      ((resolve conventions world.surroundings.isFile world.cwd reference file.toText root).run.run
        history).2 := fun _ history => world.resolve_passes root history
  induction h with
  | done history => exact Passes.refl history
  | external _ _ ih => exact ih
  | @faulty history asked _ reference fault _ _ hresolve _ ih =>
    have hasked := hasks reference history
    rw [hresolve] at hasked
    have htold : Exchange.IsSilent (.told (.warned (.referenceFault reference file fault))) :=
      trivial
    exact (hasked.trans (Passes.one asked htold)).trans ih
  | @missing history asked _ reference _ _ hresolve _ ih =>
    have hasked := hasks reference history
    rw [hresolve] at hasked
    have htold : Exchange.IsSilent (.told (.unresolved reference file)) := trivial
    exact (hasked.trans (Passes.one asked htold)).trans ih
  | @leads history asked _ reference _ _ _ hresolve _ ih =>
    have hasked := hasks reference history
    rw [hresolve] at hasked
    exact hasked.trans ih

/-- Each reference came to a finding to which it may come. -/
theorem finds (h : world.Examines conventions root file history findings later)
    (hfile : file.isAbsolute = true) (hroot : ∀ directory ∈ root, directory.IsClean) :
    ∀ finding ∈ findings, world.Finds conventions root file finding.1 finding.2 := by
  induction h with
  | done history => exact fun _ hmem => absurd hmem List.not_mem_nil
  | external hlocal _ ih => exact List.forall_mem_cons.mpr ⟨hlocal, ih⟩
  | @faulty history _ _ _ _ _ hlocal hresolve _ ih =>
    exact List.forall_mem_cons.mpr ⟨⟨hlocal, history, congrArg Prod.fst hresolve⟩, ih⟩
  | @missing history _ _ _ _ hlocal hresolve _ ih =>
    exact List.forall_mem_cons.mpr ⟨⟨hlocal, history, congrArg Prod.fst hresolve⟩, ih⟩
  | @leads history _ _ reference target _ hlocal hresolve _ ih =>
    have hresolved : world.resolved conventions root file reference history = .ok (some target) :=
      congrArg Prod.fst hresolve
    refine List.forall_mem_cons.mpr ⟨⟨hlocal, ⟨history, hresolved⟩, ?_⟩, ih⟩
    rcases world.resolved_cases hfile hlocal hroot history with ⟨_, h⟩ | h | ⟨_, hn, hs, h⟩
    · cases hresolved.symm.trans h
    · cases hresolved.symm.trans h
    · cases hresolved.symm.trans h
      exact ⟨hn, hs⟩

/-- The history is the same as if the local references were the only ones. -/
theorem filter_isLocal (h : world.Examines conventions root file history findings later) :
    world.Examines conventions root file history
      (findings.filter fun finding => isLocal conventions finding.1) later := by
  induction h with
  | done history => exact .done history
  | external hlocal _ ih =>
    rw [List.filter_cons, hlocal, if_neg Bool.false_ne_true]
    exact ih
  | faulty hlocal hresolve _ ih =>
    rw [List.filter_cons, hlocal, if_pos rfl]
    exact .faulty hlocal hresolve ih
  | missing hlocal hresolve _ ih =>
    rw [List.filter_cons, hlocal, if_pos rfl]
    exact .missing hlocal hresolve ih
  | leads hlocal hresolve _ ih =>
    rw [List.filter_cons, hlocal, if_pos rfl]
    exact .leads hlocal hresolve ih

end World.Examines

/-- References in an absolute path can be examined, and no misuse comes up. -/
theorem exists_examines (world : World) (conventions : Conventions)
    (hfile : file.isAbsolute = true) (hroot : ∀ directory ∈ root, directory.IsClean)
    (references : List Text) (history : History) :
    ∃ findings later, findings.map Prod.fst = references ∧
      world.Examines conventions root file history findings later := by
  induction references generalizing history with
  | nil => exact ⟨[], history, rfl, .done history⟩
  | cons reference references ih =>
    cases hlocal : isLocal conventions reference with
    | false =>
      obtain ⟨findings, later, hfst, hrest⟩ := ih history
      refine ⟨(reference, .external) :: findings, later, ?_, .external hlocal hrest⟩
      rw [List.map_cons, hfst]
    | true =>
      have hcases := world.resolved_cases hfile hlocal hroot history
      unfold World.resolved at hcases
      cases hresolve : (resolve conventions world.surroundings.isFile world.cwd reference
          file.toText root).run.run history with
      | mk answer asked =>
        rw [hresolve] at hcases
        rcases hcases with ⟨fault, rfl⟩ | rfl | ⟨target, -, -, rfl⟩
        · obtain ⟨findings, later, hfst, hrest⟩ :=
            ih (asked ++ [.told (.warned (.referenceFault reference file fault))])
          refine ⟨(reference, .faulty fault) :: findings, later, ?_, .faulty hlocal hresolve hrest⟩
          rw [List.map_cons, hfst]
        · obtain ⟨findings, later, hfst, hrest⟩ :=
            ih (asked ++ [.told (.unresolved reference file)])
          refine ⟨(reference, .missing) :: findings, later, ?_, .missing hlocal hresolve hrest⟩
          rw [List.map_cons, hfst]
        · obtain ⟨findings, later, hfst, hrest⟩ := ih asked
          refine ⟨(reference, .leads target) :: findings, later, ?_, .leads hlocal hresolve hrest⟩
          rw [List.map_cons, hfst]

end Examining

/-- The history after a file was seen and reported. -/
def reported (history : History) (file : Path) (depth : Nat) : History :=
  history ++ [.isFile file (.ok true)] ++ [.told (.reached file depth)]

/-- A file from the queue comes to a sight after a history, and another history is left. -/
inductive World.Meets (world : World) (plan : Plan) (root : Option Path) (file : Path)
    (depth : Nat) (history : History) : Sight → History → Prop
  /-- It could not be examined. -/
  | barred {fault : Files.Fault} : world.isFile history file = .error fault →
      Meets world plan root file depth history (.barred fault)
        (history ++ [.isFile file (.error fault)] ++ [.told (.warned (.fileFault file fault))])
  /-- It is no regular file any more. -/
  | gone : world.isFile history file = .ok false →
      Meets world plan root file depth history .gone (history ++ [.isFile file (.ok false)])
  /-- It is a file at the bound. -/
  | atBound : world.isFile history file = .ok true → plan.maxDepth.any (· ≤ depth) = true →
      Meets world plan root file depth history .atBound (reported history file depth)
  /-- It is a file that could not be read. -/
  | unread {fault : Files.Fault} : world.isFile history file = .ok true →
      plan.maxDepth.any (· ≤ depth) = false →
      world.readText (reported history file depth) file = .error fault →
      Meets world plan root file depth history (.unread fault)
        (reported history file depth ++ [.readText file (.error fault)] ++
          [.told (.warned (.readFault file fault))])
  /-- It was read, and its references were examined. -/
  | read {text : Text} {findings : List (Text × Finding)} {later : History} :
      world.isFile history file = .ok true → plan.maxDepth.any (· ≤ depth) = false →
      world.readText (reported history file depth) file = .ok text →
      findings.map Prod.fst = extract text →
      world.Examines plan.conventions root file
        (reported history file depth ++ [.readText file (.ok text)]) findings later →
      Meets world plan root file depth history (.read text findings) later

section Meeting

variable {world : World} {plan : Plan} {root : Option Path} {file : Path} {depth : Nat}
  {history later : History} {sight : Sight}

namespace World.Meets

/-- What a file comes to decides the search afterwards. -/
theorem visit_run (h : world.Meets plan root file depth history sight later) (search : Search) :
    (visit world.surroundings plan root file depth search).run history =
      ((.ok (), search.after file depth sight), later) := by
  cases h with
  | barred hseen =>
    rw [visit, run_bind, isFile_run hseen]
    rfl
  | gone hseen =>
    rw [visit, run_bind, isFile_run hseen]
    rfl
  | atBound hseen hbound =>
    rw [visit_of_isFile hseen, hbound]
    rfl
  | unread hseen hbound hread =>
    unfold reported at hread
    rw [visit_of_isFile hseen, hbound, if_neg Bool.false_ne_true, run_bind, readText_run hread]
    rfl
  | read hseen hbound hread hfst hexamines =>
    unfold reported at hread hexamines
    rw [visit_of_isFile hseen, hbound, if_neg Bool.false_ne_true, run_bind, readText_run hread]
    dsimp only
    rw [run_bind, ← hfst, hexamines.expand_run]
    rfl

/-- The file is reported if it is kept, and the only one to be read. -/
theorem adds (h : world.Meets plan root file depth history sight later) :
    Adds history later ((sight.kept file).map (·, depth)) (sight.reads file) := by
  have hasked : ∀ answer, Adds history (history ++ [.isFile file answer]) [] [] :=
    fun _ => (Passes.one history trivial).adds
  have hreported : Adds history (reported history file depth) [(file, depth)] [] :=
    (hasked (.ok true)).trans (adds_told _ (.reached file depth))
  cases h with
  | barred _ => exact (hasked _).trans (adds_told _ _)
  | gone _ => exact hasked _
  | atBound _ _ => exact hreported
  | unread _ _ _ => exact (hreported.trans (adds_readText _ file _)).trans (adds_told _ _)
  | read _ _ _ _ hexamines =>
    exact (hreported.trans (adds_readText _ file _)).trans hexamines.passes.adds

/-- No root is sought. -/
theorem passes (h : world.Meets plan root file depth history sight later) :
    Passes Exchange.IsOnWay history later := by
  have hreported : Passes Exchange.IsOnWay history (reported history file depth) :=
    (Passes.one history trivial).trans (Passes.one _ trivial)
  have hread : ∀ answer, Passes Exchange.IsOnWay (reported history file depth)
      (reported history file depth ++ [.readText file answer]) := fun _ => Passes.one _ trivial
  cases h with
  | barred hseen => exact (Passes.one history trivial).trans (Passes.one _ trivial)
  | gone hseen => exact Passes.one history trivial
  | atBound hseen hbound => exact hreported
  | unread _ _ _ => exact (hreported.trans (hread _)).trans (Passes.one _ trivial)
  | read _ _ _ _ hexamines =>
    exact (hreported.trans (hread _)).trans (hexamines.passes.mono fun _ h => h.isOnWay)

/-- The file came to a sight to which it may come. -/
theorem sees (h : world.Meets plan root file depth history sight later)
    (hfile : file.isAbsolute = true) (hroot : ∀ directory ∈ root, directory.IsClean) :
    world.Sees plan root file depth sight := by
  cases h with
  | barred hseen => exact ⟨history, hseen⟩
  | gone hseen => exact ⟨history, hseen⟩
  | atBound hseen hbound => exact ⟨⟨history, hseen⟩, hbound⟩
  | unread hseen hbound hread => exact ⟨⟨history, hseen⟩, hbound, _, hread⟩
  | read hseen hbound hread hfst hexamines =>
    exact ⟨⟨history, hseen⟩, hbound, ⟨_, hread⟩, hfst, hexamines.finds hfile hroot⟩

end World.Meets

/-- An absolute path from the queue comes to a sight. -/
theorem exists_meets (world : World) (plan : Plan) (hfile : file.isAbsolute = true)
    (hroot : ∀ directory ∈ root, directory.IsClean) (depth : Nat) (history : History) :
    ∃ sight later, world.Meets plan root file depth history sight later := by
  cases hseen : world.isFile history file with
  | error fault => exact ⟨_, _, .barred hseen⟩
  | ok isFile =>
    cases isFile with
    | false => exact ⟨_, _, .gone hseen⟩
    | true =>
      cases hbound : plan.maxDepth.any (· ≤ depth) with
      | true => exact ⟨_, _, .atBound hseen hbound⟩
      | false =>
        cases hread : world.readText (reported history file depth) file with
        | error fault => exact ⟨_, _, .unread hseen hbound hread⟩
        | ok text =>
          obtain ⟨findings, later, hfst, hexamines⟩ :=
            exists_examines world plan.conventions hfile hroot (extract text)
              (reported history file depth ++ [.readText file (.ok text)])
          exact ⟨_, later, .read hseen hbound hread hfst hexamines⟩

end Meeting

end SourceLoom.Traversal
