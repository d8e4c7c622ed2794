import SourceLoom.Proofs.Document.Unweaving
import SourceLoom.Proofs.Files.Frame
import SourceLoom.Proofs.Run.Looking

/-!
# What an exit code tells

Exit code zero says that the document was written and, if imports were followed and it was asked
for, the report of their graph. Exit code one says that the tree is as it was, unless writing failed
after a file was opened, which keeps the beginning of its text, or the report could not be written:
then the document was. A run that breaks down has no exit code. However a run ends, it leaves every
file but these two as it was.
-/

namespace SourceLoom.Run

open Files

variable {ε α β : Type} {tree after : Tree} {cwd : Path} {yaml : Settings.YamlReader}
  {options : Options} {selection : Selection} {woven : Document.Woven}

/-- How the document of a run is made. -/
def planOf (options : Options) (selection : Selection) (drawn : Option (Text × Text)) :
    Document.Plan where
  base := selection.base
  headers := options.headers
  level := options.level
  projectDrawing := drawn.map (·.1)
  filesDrawing := drawn.map (·.2)
  prompt := options.prompt

/-- The file that the graph of a run is written to, if imports are followed and it is asked for. -/
def graphFile? (options : Options) : Option Path :=
  if options.entries.getD [] = [] then none
  else (options.graph.filter (· ≠ [])).map Path.ofText

/-- The report of the graph of a run. -/
def reportOf (cwd : Path) (selection : Selection) (session : Traversal.Session) : Text :=
  session.graph.report cwd selection.base (some 2) true true

namespace Rehearsal

/-- A part of a run does in a rehearsal what another one does in its tree, where this changes
nothing. It may say something, too. -/
def Echoes (tree : Tree) (x : ExceptT ε (StateM Rehearsal) α) (y : ExceptT ε (StateM Tree) α) :
    Prop :=
  ∀ lines, ∃ answer said, x.run.run ⟨tree, lines⟩ = (answer, ⟨tree, said⟩) ∧
    y.run.run tree = (answer, tree)

namespace Echoes

/-- An answer that is known echoes itself. -/
protected theorem pure (a : α) : Echoes tree (pure a : ExceptT ε (StateM Rehearsal) α)
    (pure a : ExceptT ε (StateM Tree) α) :=
  fun lines => ⟨.ok a, lines, rfl, rfl⟩

/-- A fault that is known echoes itself. -/
protected theorem throw (e : ε) : Echoes tree (throw e : ExceptT ε (StateM Rehearsal) α)
    (throw e : ExceptT ε (StateM Tree) α) :=
  fun lines => ⟨.error e, lines, rfl, rfl⟩

/-- Two parts that echo two others do so one after the other. -/
protected theorem bind {x : ExceptT ε (StateM Rehearsal) α} {y : ExceptT ε (StateM Tree) α}
    {f : α → ExceptT ε (StateM Rehearsal) β} {g : α → ExceptT ε (StateM Tree) β}
    (hx : Echoes tree x y) (hf : ∀ a, Echoes tree (f a) (g a)) :
    Echoes tree (x >>= f) (y >>= g) := by
  intro lines
  obtain ⟨answer, said, hfirst, hsecond⟩ := hx lines
  rw [run_bind, run_bind, hfirst, hsecond]
  cases answer with
  | error e => exact ⟨.error e, said, rfl, rfl⟩
  | ok a => exact hf a said

/-- A notice echoes silence. -/
theorem say (notice : Notice) :
    Echoes tree (liftM ((host cwd).say options notice) : ExceptT ε (StateM Rehearsal) Unit)
      (liftM (pure () : StateM Tree Unit) : ExceptT ε (StateM Tree) Unit) := by
  intro lines
  unfold Host.say
  split
  · exact ⟨.ok (), lines ++ [notice.toText], rfl, rfl⟩
  · exact ⟨.ok (), lines, rfl, rfl⟩

/-- Files that are woven with notices echo the same files woven without a word. -/
theorem blocks (level : Option Minify.Level) (files : List Path) :
    Echoes tree (Document.blocks (host cwd).files
      (fun event => (host cwd).say options (.ofDocument event)) level files)
      (Document.blocks Tree.system (fun _ => pure ()) level files) := by
  induction files with
  | nil => exact .pure []
  | cons file files ih =>
    have hread : Echoes tree
        (Files.attempt ((host cwd).files.readText file) :
          ExceptT Document.Fault (StateM Rehearsal) _)
        (Files.attempt (Tree.system.readText file)) := fun lines =>
      ⟨_, lines, Document.run_attempt_readText rfl, Document.attempt_readText tree file⟩
    refine hread.bind fun answer => ?_
    obtain (⟨cause, place⟩ | _) | content := answer
    · exact (say _).bind fun _ => ih
    · exact .throw _
    · dsimp only
      cases Document.Block.of level file content with
      | error fault => exact .throw _
      | ok block =>
        have hwoven : Echoes tree (do
            liftM ((host cwd).say options (.ofDocument (.woven file)))
            return block :: (← Document.blocks (host cwd).files
              (fun event => (host cwd).say options (.ofDocument event)) level files)) (do
            liftM (pure () : StateM Tree Unit)
            return block :: (← Document.blocks Tree.system (fun _ => pure ()) level files)) :=
          (say _).bind fun _ => ih.bind fun _ => .pure _
        dsimp only
        split
        · exact (say _).bind fun _ => hwoven
        · exact hwoven

end Echoes

/-- A part of a run that succeeded, where its faults go by another name, gave this answer. -/
theorem of_run_adapt_eq_ok {ι : Type} {f : ι → ε} {x : ExceptT ι (StateM Rehearsal) α}
    {rehearsal later : Rehearsal} {a : α}
    (h : (x.adapt f).run.run rehearsal = (.ok a, later)) :
    x.run.run rehearsal = (.ok a, later) := by
  change (Except.mapError _ (x.run.run rehearsal).1, (x.run.run rehearsal).2) = _ at h
  rcases hx : x.run.run rehearsal with ⟨answer, state⟩
  rw [hx] at h
  cases answer <;> cases h
  rfl

/-- A document that was composed is the one woven in the tree when nobody listens. -/
theorem compose_eq_ok {conventions : Conventions} {lines : List Text} {last : Rehearsal}
    (h : (compose (host cwd) options conventions selection).run.run ⟨tree, lines⟩ =
      (.ok woven, last)) :
    ∃ drawn before later,
      (drawings (host cwd) options conventions selection).run.run ⟨tree, before⟩ =
        (.ok drawn, ⟨tree, later⟩) ∧
      Document.wovenIn tree cwd (planOf options selection drawn) selection.files =
        (.ok woven, tree) := by
  obtain ⟨_, ⟨first, before⟩, hsay, hdrawing⟩ := run_bind_eq_ok h
  obtain ⟨drawn, ⟨second, later⟩, hdrawn, hweaving⟩ := run_bind_eq_ok hdrawing
  obtain rfl : first = tree := (Alike.say _).tree_eq hsay
  obtain rfl : second = first := (alike_drawings _ _).tree_eq hdrawn
  have hweave : Echoes second (Document.weave (host cwd).files
      (fun event => (host cwd).say options (.ofDocument event)) cwd
        (planOf options selection drawn) selection.files)
      (Document.weave Tree.system (fun _ => pure ()) cwd (planOf options selection drawn)
        selection.files) := (Echoes.blocks _ _).bind fun _ => .pure _
  obtain ⟨answer, said, hhere, hthere⟩ := hweave later
  cases hhere.symm.trans (of_run_adapt_eq_ok hweaving)
  exact ⟨drawn, before, later, hdrawn, hthere⟩

/-- What only says something succeeds as a part of a run. -/
theorem run_spared {x : StateM Rehearsal α} (h : Spares tree x) (lines : List Text) :
    ∃ a said, (liftM x : ExceptT Interruption (StateM Rehearsal) α).run.run ⟨tree, lines⟩ =
      (.ok a, ⟨tree, said⟩) := by
  obtain ⟨answer, said, hsaid⟩ := h lines
  refine ⟨answer, said, ?_⟩
  change (Except.ok (x.run ⟨tree, lines⟩).1, (x.run ⟨tree, lines⟩).2) = _
  rw [hsaid]

/-- Where a text can be written, putting it to the file succeeds and says nothing. -/
theorem run_put_of_ok {complaint : Text} {path : Path} {text : Text}
    (h : tree.store path (Utf8.encode text) = .ok (after, none)) (lines : List Text) :
    (put (host cwd) options complaint path text).run.run ⟨tree, lines⟩ =
      (.ok (), ⟨after, lines⟩) :=
  run_put_eq_ok.mpr ⟨after, h, rfl⟩

/-- A failure leaves a tree as it is. -/
theorem run_fail (message : Text) (lines : List Text) :
    ∃ said, ((host cwd).fail options message : ExceptT _ (StateM Rehearsal) α).run.run
      ⟨tree, lines⟩ = (.error .failed, ⟨tree, said⟩) := by
  obtain ⟨_, said, hsaid⟩ := run_spared (Spares.say (.failure message)) lines
  refine ⟨said, ?_⟩
  rw [Host.fail, run_bind, hsaid]
  rfl

/-- Where writing a text fails after its file was opened, putting it to the file fails. -/
theorem run_put_of_short {complaint : Text} {path : Path} {text : Text} {shortage : Shortage}
    (h : tree.store path (Utf8.encode text) = .ok (after, some shortage)) (lines : List Text) :
    ∃ interruption said, (put (host cwd) options complaint path text).run.run ⟨tree, lines⟩ =
      (.error interruption, ⟨after, said⟩) := by
  unfold put
  rw [run_bind, run_write_outcome, h]
  exact ⟨.failed, run_fail _ lines⟩

/-- Where a file cannot be written, putting a text to it fails and changes nothing. -/
theorem run_put_of_error {complaint : Text} {path : Path} {text : Text} {fault : Fault}
    (h : tree.store path (Utf8.encode text) = .error fault) (lines : List Text) :
    ∃ interruption said, (put (host cwd) options complaint path text).run.run ⟨tree, lines⟩ =
      (.error interruption, ⟨tree, said⟩) := by
  unfold put
  rw [run_bind, run_write_outcome, h]
  cases fault with
  | nullInPath => exact ⟨_, lines, rfl⟩
  | failed cause place => exact ⟨.failed, run_fail _ lines⟩

/-- Files that following imports selected come with a session. -/
theorem exists_session_of_followed {conventions : Conventions} {entries : List Text}
    {rehearsal later : Rehearsal}
    (h : (followed (host cwd) options conventions entries).run.run rehearsal =
      (.ok selection, later)) : ∃ session, selection.session = some session := by
  unfold followed at h
  obtain ⟨_, first, -, hfollowing⟩ := run_bind_eq_ok h
  by_cases hdepth : .depth ∈ options.valueless
  · rw [if_pos hdepth] at hfollowing
    cases hfollowing
  · rw [if_neg hdepth] at hfollowing
    obtain ⟨⟨answer, session⟩, second, -, hanswer⟩ := run_bind_eq_ok hfollowing
    obtain (fault | cause) | _ | ⟨file, files⟩ := answer
    · cases hanswer
    · cases hanswer
    · obtain ⟨_, _, _, hthrow⟩ := run_bind_eq_ok hanswer
      cases hthrow
    · cases hanswer
      exact ⟨session, rfl⟩

/-- The files of a run come with a session just if there are entries. -/
theorem isSome_session_of_select {conventions : Conventions} {rehearsal later : Rehearsal}
    (h : (select (host cwd) options conventions).run.run rehearsal = (.ok selection, later)) :
    selection.session.isSome ↔ options.entries.getD [] ≠ [] := by
  by_cases hentries : options.entries.getD [] = []
  · rw [(scanned_eq_ok (scanned_of_select hentries h)).2.1]
    exact iff_of_false nofun fun hne => hne hentries
  · rw [select_eq_followed hentries] at h
    obtain ⟨found, second, hfollowed, hpassed⟩ := run_bind_eq_ok h
    split at hpassed
    · obtain ⟨_, _, _, hthrow⟩ := run_bind_eq_ok hpassed
      cases hthrow
    · cases hpassed
      obtain ⟨session, hsession⟩ := exists_session_of_followed hfollowed
      rw [hsession]
      exact iff_of_true rfl hentries

/-- How a delivery ends, and which tree it leaves behind. -/
inductive Delivers (tree : Tree) (options : Options) (selection : Selection)
    (woven : Document.Woven) : Except Interruption Unit → Tree → Prop
  /-- The document could not be written. -/
  | unwritten (interruption : Interruption) :
      Delivers tree options selection woven (.error interruption) tree
  /-- Writing the document failed after its file was opened. -/
  | cut {after : Tree} {shortage : Shortage} (interruption : Interruption) :
      tree.store (writtenFile tree.cwd options) (Utf8.encode woven.text) =
        .ok (after, some shortage) →
      Delivers tree options selection woven (.error interruption) after
  /-- The document was written, and no report is due. -/
  | document {after : Tree} : graphFile? options = none →
      tree.store (writtenFile tree.cwd options) (Utf8.encode woven.text) = .ok (after, none) →
      Delivers tree options selection woven (.ok ()) after
  /-- The document was written, and the report could not be. -/
  | unreported {after : Tree} {session : Traversal.Session} {file : Path} {fault : Fault}
      (interruption : Interruption) : graphFile? options = some file →
      selection.session = some session →
      tree.store (writtenFile tree.cwd options) (Utf8.encode woven.text) = .ok (after, none) →
      after.store file (Utf8.encode (reportOf tree.cwd selection session)) = .error fault →
      Delivers tree options selection woven (.error interruption) after
  /-- The document was written, and writing the report failed after its file was opened. -/
  | reportCut {after last : Tree} {session : Traversal.Session} {file : Path}
      {shortage : Shortage} (interruption : Interruption) : graphFile? options = some file →
      selection.session = some session →
      tree.store (writtenFile tree.cwd options) (Utf8.encode woven.text) = .ok (after, none) →
      after.store file (Utf8.encode (reportOf tree.cwd selection session)) =
        .ok (last, some shortage) →
      Delivers tree options selection woven (.error interruption) last
  /-- The document and the report were written. -/
  | reported {after last : Tree} {session : Traversal.Session} {file : Path} :
      graphFile? options = some file → selection.session = some session →
      tree.store (writtenFile tree.cwd options) (Utf8.encode woven.text) = .ok (after, none) →
      after.store file (Utf8.encode (reportOf tree.cwd selection session)) = .ok (last, none) →
      Delivers tree options selection woven (.ok ()) last

/-- What is due after the document is nothing, or the report of a session. -/
theorem putGraph_cases (hsession : selection.session.isSome ↔ options.entries.getD [] ≠ []) :
    graphFile? options = none ∧ (∀ lines, ∃ said,
        (putGraph (host cwd) options selection).run.run ⟨tree, lines⟩ = (.ok (), ⟨tree, said⟩)) ∨
      ∃ file session, graphFile? options = some file ∧ selection.session = some session ∧
        putGraph (host cwd) options selection = put (host cwd) options
          "Error writing graph".toList file (reportOf cwd selection session) := by
  unfold graphFile? putGraph
  split
  · rename_i hentries
    have hnone : selection.session = none :=
      Option.not_isSome_iff_eq_none.mp fun hsome => hsession.mp hsome hentries
    rw [hnone]
    refine .inl ⟨rfl, fun lines => ?_⟩
    split
    · exact ⟨lines, rfl⟩
    · exact ⟨lines, rfl⟩
    · obtain ⟨_, said, hsaid⟩ := run_spared (Spares.say _) lines
      exact ⟨said, hsaid⟩
    · rename_i hsome
      cases hsome
  · rename_i hentries
    obtain ⟨session, hsome⟩ := Option.isSome_iff_exists.mp (hsession.mpr hentries)
    rw [hsome]
    cases hgraph : options.graph with
    | none => exact .inl ⟨rfl, fun lines => ⟨lines, rfl⟩⟩
    | some file =>
      cases file with
      | nil => exact .inl ⟨rfl, fun lines => ⟨lines, rfl⟩⟩
      | cons first rest => exact .inr ⟨_, session, rfl, rfl, rfl⟩

/-- After the document, a delivery writes the report if one is due. Closing words change nothing. -/
theorem delivers_of_putGraph {lines : List Text} {ending : Except Interruption Unit}
    {last : Rehearsal} {notices : List Notice}
    (hsession : selection.session.isSome ↔ options.entries.getD [] ≠ [])
    (hwrite : tree.store (writtenFile tree.cwd options) (Utf8.encode woven.text) =
      .ok (after, none))
    (h : (putGraph (host tree.cwd) options selection >>= fun _ =>
      liftM ((host tree.cwd).sayAll options notices)).run.run ⟨after, lines⟩ = (ending, last)) :
    Delivers tree options selection woven ending last.tree := by
  rw [run_bind] at h
  rcases putGraph_cases hsession with ⟨hnone, hgraph⟩ | ⟨file, session, hfile, hsome, hgraph⟩
  · obtain ⟨said, hgraph⟩ := hgraph lines
    rw [hgraph] at h
    obtain ⟨_, words, hsaid⟩ := run_spared (Spares.sayAll notices) said
    cases hsaid.symm.trans h
    exact .document hnone hwrite
  · rw [hgraph] at h
    cases hreport : after.store file (Utf8.encode (reportOf tree.cwd selection session)) with
    | error fault =>
      obtain ⟨interruption, said, hput⟩ := run_put_of_error hreport lines
      rw [hput] at h
      cases h
      exact .unreported _ hfile hsome hwrite hreport
    | ok outcome =>
      obtain ⟨final, _ | shortage⟩ := outcome
      · rw [run_put_of_ok hreport] at h
        obtain ⟨_, words, hsaid⟩ := run_spared (Spares.sayAll notices) lines
        cases hsaid.symm.trans h
        exact .reported hfile hsome hwrite hreport
      · obtain ⟨interruption, said, hput⟩ := run_put_of_short hreport lines
        rw [hput] at h
        cases h
        exact .reportCut _ hfile hsome hwrite hreport

/-- A delivery ends in one of these ways. -/
theorem delivers_of_deliver {lines : List Text} {ending : Except Interruption Unit}
    {last : Rehearsal} (hsession : selection.session.isSome ↔ options.entries.getD [] ≠ [])
    (h : (deliver (host tree.cwd) options selection woven).run.run ⟨tree, lines⟩ =
      (ending, last)) : Delivers tree options selection woven ending last.tree := by
  unfold deliver at h
  rw [outputPath_eq] at h
  split at h
  · cases h
    exact .unwritten _
  · rw [pure_bind, run_bind] at h
    cases hwrite : tree.store (writtenFile tree.cwd options) (Utf8.encode woven.text) with
    | error fault =>
      obtain ⟨interruption, said, hput⟩ := run_put_of_error hwrite lines
      rw [hput] at h
      cases h
      exact .unwritten _
    | ok outcome =>
      obtain ⟨after, _ | shortage⟩ := outcome
      · rw [run_put_of_ok hwrite] at h
        exact delivers_of_putGraph hsession hwrite h
      · obtain ⟨interruption, said, hput⟩ := run_put_of_short hwrite lines
        rw [hput] at h
        cases h
        exact .cut _ hwrite

/-- A run selects files of a tree and weaves them into a document before it delivers anything. -/
def Prepares (yaml : Settings.YamlReader) (tree : Tree) (options : Options) (selection : Selection)
    (woven : Document.Woven) : Prop :=
  ∃ conventions first second before later drawn,
    (conventionsOf (host tree.cwd) yaml options).run.run ⟨tree, []⟩ =
      (.ok conventions, ⟨tree, first⟩) ∧
    (select (host tree.cwd) options conventions).run.run ⟨tree, first⟩ =
      (.ok selection, ⟨tree, second⟩) ∧
    (drawings (host tree.cwd) options conventions selection).run.run ⟨tree, before⟩ =
      (.ok drawn, ⟨tree, later⟩) ∧
    Document.wovenIn tree tree.cwd (planOf options selection drawn) selection.files =
      (.ok woven, tree)

/-- After a part of a run that leaves its tree as it is, the run has ended early or goes on. -/
theorem Alike.run_bind_cases {x : ExceptT ε (StateM Rehearsal) α}
    {f : α → ExceptT ε (StateM Rehearsal) β} {lines : List Text} {ending : Except ε β}
    {last : Rehearsal} (hx : Alike tree tree x)
    (h : (x >>= f).run.run ⟨tree, lines⟩ = (ending, last)) :
    (∃ e, ending = .error e ∧ last.tree = tree) ∨
      ∃ a said, x.run.run ⟨tree, lines⟩ = (.ok a, ⟨tree, said⟩) ∧
        (f a).run.run ⟨tree, said⟩ = (ending, last) := by
  obtain ⟨e | a, said, hrun, -⟩ := hx lines
  · rw [run_bind, hrun] at h
    cases h
    exact .inl ⟨e, rfl, rfl⟩
  · rw [run_bind, hrun] at h
    exact .inr ⟨a, said, hrun, h⟩

/-- A run ends early and leaves the tree as it is, or it prepares a document and delivers it. -/
theorem delivers_of_rehearse {ending : Except Interruption Unit} {last : Rehearsal}
    (h : rehearse yaml tree options = (ending, last)) :
    (∃ interruption, ending = .error interruption ∧ last.tree = tree) ∨
      ∃ selection woven, Prepares yaml tree options selection woven ∧
        Delivers tree options selection woven ending last.tree := by
  unfold rehearse perform at h
  rcases (alike_conventionsOf yaml).run_bind_cases h with
    hended | ⟨conventions, first, hconventions, h⟩
  · exact .inl hended
  rcases (alike_select_self conventions).run_bind_cases h with
    hended | ⟨selection, second, hselection, h⟩
  · exact .inl hended
  rcases (alike_compose_self conventions selection).run_bind_cases h with
    hended | ⟨woven, third, hwoven, h⟩
  · exact .inl hended
  · obtain ⟨drawn, before, later, hdrawn, hwovenIn⟩ := compose_eq_ok hwoven
    exact .inr ⟨selection, woven, ⟨conventions, first, second, before, later, drawn,
      hconventions, hselection, hdrawn, hwovenIn⟩,
      delivers_of_deliver (isSome_session_of_select hselection) h⟩

/-- A path leads to a file that keeps a beginning of some bytes. -/
def KeepsPart (tree : Tree) (path : Path) (bytes : List UInt8) : Prop :=
  ∃ kept, kept <+: bytes ∧ tree.Keeps path kept

/-- What was stored in full is kept. -/
theorem keeps_of_store {path : Path} {bytes : List UInt8}
    (h : tree.store path bytes = .ok (after, none)) : after.Keeps path bytes := by
  obtain ⟨kept, hwrote, -, hall⟩ := Tree.exists_wrote_of_store h
  rw [← hall rfl]
  exact hwrote.keeps_self

/-- Of what was stored a beginning is kept. -/
theorem keepsPart_of_store {path : Path} {bytes : List UInt8} {shortage : Option Shortage}
    (h : tree.store path bytes = .ok (after, shortage)) : KeepsPart after path bytes := by
  obtain ⟨kept, hwrote, hkept, -⟩ := Tree.exists_wrote_of_store h
  exact ⟨kept, hkept, hwrote.keeps_self⟩

/-- What is kept elsewhere stays after a report was stored, if it is no name of its file. -/
theorem keeps_of_store_elsewhere {path other : Path} {bytes content : List UInt8}
    {shortage : Option Shortage} (h : tree.store path bytes = .ok (after, shortage))
    (hother : ∀ place ∈ tree.spot? path, ∀ spot ∈ tree.spot? other, spot ∉ tree.namesOf place)
    (hkeeps : tree.Keeps other content) : after.Keeps other content := by
  obtain ⟨kept, hwrote, -⟩ := Tree.exists_wrote_of_store h
  exact hwrote.keeps hother hkeeps

/-- Names of files and spots of paths are the same after storing. -/
theorem sameSpots_of_store {path : Path} {bytes : List UInt8} {shortage : Option Shortage}
    (h : tree.store path bytes = .ok (after, shortage)) :
    (∀ other, after.spot? other = tree.spot? other) ∧
      ∀ place, after.namesOf place = tree.namesOf place := by
  obtain ⟨kept, hwrote, -⟩ := Tree.exists_wrote_of_store h
  refine ⟨hwrote.spot?_eq, fun place => ?_⟩
  rw [Tree.namesOf, Tree.namesOf, Tree.record, Tree.record, hwrote.records_eq]

/-- Every place but the names of the file is as it was after storing. -/
theorem elsewhere_of_store {path : Path} {bytes : List UInt8} {shortage : Option Shortage}
    (h : tree.store path bytes = .ok (after, shortage)) {place : List Name}
    (hplace : ∀ spot ∈ tree.spot? path, place ∉ tree.namesOf spot) :
    (after.root.get? place).map Node.bare = (tree.root.get? place).map Node.bare := by
  obtain ⟨kept, hwrote, -⟩ := Tree.exists_wrote_of_store h
  exact hwrote.elsewhere hplace

/-- The document of a run and the report of its graph are different files. -/
def AreApart (tree : Tree) (options : Options) : Prop :=
  ∀ file ∈ graphFile? options, ∀ place ∈ tree.spot? file,
    ∀ spot ∈ tree.spot? (writtenFile tree.cwd options), spot ∉ tree.namesOf place

/-- What a delivery that failed left behind, if it left anything: a beginning of the document, the
document alone, or the document and a beginning of the report. -/
inductive Leftover (tree : Tree) (options : Options) (selection : Selection)
    (woven : Document.Woven) (last : Tree) : Prop
  /-- Writing the document failed, and its file keeps a beginning of it. -/
  | cut (shortage : Shortage)
      (document : tree.store (writtenFile tree.cwd options) (Utf8.encode woven.text) =
        .ok (last, some shortage))
      (kept : KeepsPart last (writtenFile tree.cwd options) (Utf8.encode woven.text))
  /-- The document is there, and the file of the report could not be opened. -/
  | unreported (file : Path) (session : Traversal.Session) (fault : Fault)
      (asked : graphFile? options = some file) (followed : selection.session = some session)
      (document : tree.store (writtenFile tree.cwd options) (Utf8.encode woven.text) =
        .ok (last, none))
      (kept : last.Keeps (writtenFile tree.cwd options) (Utf8.encode woven.text))
      (report : last.store file (Utf8.encode (reportOf tree.cwd selection session)) =
        .error fault)
  /-- The document is there. Writing the report failed, and its file keeps a beginning of it. -/
  | reportCut (file : Path) (session : Traversal.Session) (shortage : Shortage) (between : Tree)
      (asked : graphFile? options = some file) (followed : selection.session = some session)
      (document : tree.store (writtenFile tree.cwd options) (Utf8.encode woven.text) =
        .ok (between, none))
      (kept : last.Keeps (writtenFile tree.cwd options) (Utf8.encode woven.text))
      (report : between.store file (Utf8.encode (reportOf tree.cwd selection session)) =
        .ok (last, some shortage))
      (reportKept : KeepsPart last file (Utf8.encode (reportOf tree.cwd selection session)))

namespace Delivers

variable {last : Tree} {ending : Except Interruption Unit} {interruption : Interruption}

/-- What was stored in full as the document is kept after something was stored as the report. -/
theorem keeps_document {file : Path} {report : List UInt8} {shortage : Option Shortage}
    (hapart : AreApart tree options) (hfile : graphFile? options = some file)
    (hdocument : tree.store (writtenFile tree.cwd options) (Utf8.encode woven.text) =
      .ok (after, none))
    (hreport : after.store file report = .ok (last, shortage)) :
    last.Keeps (writtenFile tree.cwd options) (Utf8.encode woven.text) := by
  obtain ⟨hspots, hnames⟩ := sameSpots_of_store hdocument
  refine keeps_of_store_elsewhere hreport ?_ (keeps_of_store hdocument)
  rw [hspots, hspots]
  intro place hplace spot hspot
  rw [hnames]
  exact hapart file hfile place hplace spot hspot

/-- A delivery that succeeded left the document, and the report if there was to be one. -/
theorem keeps (h : Delivers tree options selection woven (.ok ()) last)
    (hapart : AreApart tree options) :
    last.Keeps (writtenFile tree.cwd options) (Utf8.encode woven.text) ∧
      ∀ file ∈ graphFile? options, ∃ session, selection.session = some session ∧
        last.Keeps file (Utf8.encode (reportOf tree.cwd selection session)) := by
  cases h with
  | document hnone hdocument =>
    refine ⟨keeps_of_store hdocument, fun file hfile => ?_⟩
    rw [hnone] at hfile
    cases hfile
  | reported hfile hsession hdocument hreport =>
    refine ⟨keeps_document hapart hfile hdocument hreport, fun path hpath => ?_⟩
    cases hfile.symm.trans hpath
    exact ⟨_, hsession, keeps_of_store hreport⟩

/-- A delivery that failed left the tree as it was, or one of these. -/
theorem of_error (h : Delivers tree options selection woven (.error interruption) last)
    (hapart : AreApart tree options) :
    last = tree ∨ Leftover tree options selection woven last := by
  cases h with
  | unwritten => exact .inl rfl
  | cut _ hdocument => exact .inr (.cut _ hdocument (keepsPart_of_store hdocument))
  | unreported _ hfile hsession hdocument hreport =>
    exact .inr (.unreported _ _ _ hfile hsession hdocument (keeps_of_store hdocument) hreport)
  | reportCut _ hfile hsession hdocument hreport =>
    exact .inr (.reportCut _ _ _ _ hfile hsession hdocument
      (keeps_document hapart hfile hdocument hreport) hreport (keepsPart_of_store hreport))

/-- However a delivery ends, it leaves every place as it was but the names of the two files. -/
theorem elsewhere (h : Delivers tree options selection woven ending last) {place : List Name}
    (hplace : ∀ spot ∈ tree.spot? (writtenFile tree.cwd options), place ∉ tree.namesOf spot)
    (hgraph : ∀ file ∈ graphFile? options, ∀ spot ∈ tree.spot? file, place ∉ tree.namesOf spot) :
    (last.root.get? place).map Node.bare = (tree.root.get? place).map Node.bare := by
  have hboth {after : Tree} {file : Path} {report : List UInt8} {shortage : Option Shortage}
      (hfile : graphFile? options = some file)
      (hdocument : tree.store (writtenFile tree.cwd options) (Utf8.encode woven.text) =
        .ok (after, none)) (hreport : after.store file report = .ok (last, shortage)) :
      (last.root.get? place).map Node.bare = (tree.root.get? place).map Node.bare := by
    obtain ⟨hspots, hnames⟩ := sameSpots_of_store hdocument
    refine (elsewhere_of_store hreport ?_).trans (elsewhere_of_store hdocument hplace)
    rw [hspots]
    intro spot hspot
    rw [hnames]
    exact hgraph file hfile spot hspot
  cases h with
  | unwritten => rfl
  | cut _ hdocument => exact elsewhere_of_store hdocument hplace
  | document _ hdocument => exact elsewhere_of_store hdocument hplace
  | unreported _ _ _ hdocument _ => exact elsewhere_of_store hdocument hplace
  | reportCut _ hfile _ hdocument hreport => exact hboth hfile hdocument hreport
  | reported hfile _ hdocument hreport => exact hboth hfile hdocument hreport

end Delivers

end Rehearsal

open Rehearsal

/-- The exit code of a run tells what was written, if the document and the report of the graph are
different files. With exit code zero the document is there, woven from the selected files, and if
imports were followed and it was asked for, the report is there; only special files keep nothing.
With exit code one the tree is as it was, or the document is there and the report could not be
written, or writing failed after its file was opened, which keeps a beginning of what is due. And
however the run ends, every place that is no name of the two files is as it was. -/
theorem rehearse_tells {ending : Except Interruption Unit} {last : Rehearsal}
    (h : rehearse yaml tree options = (ending, last)) (hapart : AreApart tree options) :
    (exitCode? ending = some 0 → ∃ selection woven, Prepares yaml tree options selection woven ∧
      last.tree.Keeps (writtenFile tree.cwd options) (Utf8.encode woven.text) ∧
      ∀ file ∈ graphFile? options, ∃ session, selection.session = some session ∧
        last.tree.Keeps file (Utf8.encode (reportOf tree.cwd selection session))) ∧
    (exitCode? ending = some 1 → last.tree = tree ∨
      ∃ selection woven, Prepares yaml tree options selection woven ∧
        Leftover tree options selection woven last.tree) ∧
    ∀ place, (∀ spot ∈ tree.spot? (writtenFile tree.cwd options), place ∉ tree.namesOf spot) →
      (∀ file ∈ graphFile? options, ∀ spot ∈ tree.spot? file, place ∉ tree.namesOf spot) →
      (last.tree.root.get? place).map Node.bare = (tree.root.get? place).map Node.bare := by
  rcases delivers_of_rehearse h with
    ⟨interruption, rfl, htree⟩ | ⟨selection, woven, hprepares, hdelivers⟩
  · refine ⟨fun hzero => ?_, fun _ => .inl htree, fun place _ _ => by rw [htree]⟩
    cases interruption <;> cases hzero
  · refine ⟨fun hzero => ?_, fun hone => ?_, fun place => hdelivers.elsewhere⟩
    · rcases ending with (_ | _) | _
      · cases hzero
      · cases hzero
      · exact ⟨selection, woven, hprepares, hdelivers.keeps hapart⟩
    · rcases ending with interruption | _
      · exact (hdelivers.of_error hapart).imp id fun hleft =>
          ⟨selection, woven, hprepares, hleft⟩
      · cases hone

/-- A working directory with two files, one of which imports the other, and a link to a file that is
not there yet. -/
def linkedTree : Tree where
  root := .directory .ofDirectory
    [("w".toList, .directory .ofDirectory
      [("a.js".toList, .file .ofFile (Utf8.encode "import './b.js'".toList)),
        ("b.js".toList, .file .ofFile []),
        ("latest".toList, .link "all.txt".toList)])]
  cwd := ⟨.root, ["w".toList]⟩

/-- A run that follows the imports of the first file, writes through the link, and reports. -/
def reportedOptions : Options where
  entries := some ["a.js".toList]
  output := "latest".toList
  drawing := false
  graph := some "graph.json".toList

/-- The document goes through the link, the report beside it, and the link is still there. -/
theorem rehearse_tells_linked :
    (∃ selection woven, Prepares Yaml.read linkedTree reportedOptions selection woven ∧
      (rehearse Yaml.read linkedTree reportedOptions).2.tree.Keeps (.ofText "/w/latest".toList)
        (Utf8.encode woven.text) ∧
      ∃ session, selection.session = some session ∧
        (rehearse Yaml.read linkedTree reportedOptions).2.tree.Keeps
          (.ofText "graph.json".toList)
          (Utf8.encode (reportOf linkedTree.cwd selection session))) ∧
      ((rehearse Yaml.read linkedTree reportedOptions).2.tree.root.get?
        ["w".toList, "latest".toList]).map Node.bare = some (.link "all.txt".toList) := by
  have hsuccess : exitCode? (rehearse Yaml.read linkedTree reportedOptions).1 = some 0 := by
    decide +kernel
  have hgraphFile : graphFile? reportedOptions = some (.ofText "graph.json".toList) := by
    decide +kernel
  have hspot : linkedTree.spot? (writtenFile linkedTree.cwd reportedOptions) =
      some ["w".toList, "all.txt".toList] := by decide +kernel
  have hgraphSpot : linkedTree.spot? (.ofText "graph.json".toList) =
      some ["w".toList, "graph.json".toList] := by decide +kernel
  have hapart : AreApart linkedTree reportedOptions := by
    intro file hfile place hplace spot hdocument
    cases hgraphFile.symm.trans hfile
    cases hgraphSpot.symm.trans hplace
    cases hspot.symm.trans hdocument
    decide
  obtain ⟨hzero, -, helsewhere⟩ := rehearse_tells
    (Prod.mk.eta (p := rehearse Yaml.read linkedTree reportedOptions)).symm hapart
  obtain ⟨selection, woven, hprepares, hdocument, hreport⟩ := hzero hsuccess
  refine ⟨⟨selection, woven, hprepares, hdocument, hreport _ hgraphFile⟩,
    helsewhere _ (fun spot hdocument => ?_) fun file hfile spot hplace => ?_⟩
  · cases hspot.symm.trans hdocument
    decide
  · cases hgraphFile.symm.trans hfile
    cases hgraphSpot.symm.trans hplace
    decide

/-- A working directory with a file, beside a special file, on a disk where a document gets three
bytes. -/
def fullTree : Tree where
  root := .directory .ofDirectory
    [("w".toList, .directory .ofDirectory [("a.js".toList, .file .ofFile [])]),
      ("null".toList, .device .ofFile)]
  cwd := ⟨.root, ["w".toList]⟩
  records := [{ names := [["w".toList, "all.txt".toList]], stop := some (3, .space) }]

/-- A run that follows the imports of the file, to some document. -/
def followingOptions (output : Text) : Options where
  entries := some ["a.js".toList]
  output := output
  drawing := false

/-- A run can fail although it wrote something, where its document does not fit on the disk. It can
succeed although its document is not there, where this is a special file and not an ordinary one,
and although there is no report, where this was asked for with an empty path. -/
theorem exists_exit_astray :
    (exitCode? (rehearse Yaml.read fullTree (followingOptions "all.txt".toList)).1 = some 1 ∧
      fullTree.holds (.ofText "all.txt".toList) = .ok false ∧
      (rehearse Yaml.read fullTree (followingOptions "all.txt".toList)).2.tree.read
        (.ofText "all.txt".toList) = .ok (Utf8.encode "===".toList)) ∧
    (exitCode? (rehearse Yaml.read fullTree (followingOptions "/null".toList)).1 = some 0 ∧
      (rehearse Yaml.read fullTree (followingOptions "/null".toList)).2.tree.read
        (.ofText "/null".toList) = .ok [] ∧
      (rehearse Yaml.read fullTree (followingOptions "b.txt".toList)).2.tree.read
        (.ofText "b.txt".toList) ≠ .ok []) ∧
    exitCode? (rehearse Yaml.read fullTree
        { followingOptions "b.txt".toList with graph := some [] }).1 = some 0 ∧
      (rehearse Yaml.read fullTree
        { followingOptions "b.txt".toList with graph := some [] }).2.tree.read (.ofText []) =
          .error (.failed .isADirectory (.ofText [])) := by
  decide +kernel

end SourceLoom.Run
