import SourceLoom.Proofs.Files.Frame
import SourceLoom.Proofs.Options.Uses
import SourceLoom.Proofs.Run.Alike
import SourceLoom.Proofs.Scan.Rescan
import SourceLoom.Yaml

/-!
# Runs that are repeated

A run that scans a directory and does not draw the project can be repeated: on the tree that it left
behind, it says the same again, ends the same, and changes nothing. The document it wrote is not
woven into the next one, wherever it lies.
-/

namespace SourceLoom.Run

open Files

variable {tree other after : Tree} {cwd : Path} {yaml : Settings.YamlReader} {options : Options}

/-- Leaving files out before or after choosing by patterns is the same. -/
theorem filter_select (keep : Path → Bool) (directory : Path) (pattern ignored : Option Pattern)
    (files : List Path) :
    (Scan.select cwd directory pattern ignored files).filter keep =
      Scan.select cwd directory pattern ignored (files.filter keep) := by
  unfold Scan.select
  rw [List.filter_filter, List.filter_filter]
  exact List.filter_congr fun file _ => Bool.and_comm _ _

/-- Whether written patterns are patterns does not depend on the files to choose from. -/
theorem filter_cases (cwd directory : Path) (pattern ignored : Option Text) :
    (∃ bad, ∀ files, Scan.filter cwd directory pattern ignored files = .error bad) ∨
      ∃ p q, ∀ files, Scan.filter cwd directory pattern ignored files =
        .ok (Scan.select cwd directory p q files) := by
  unfold Scan.filter
  cases Scan.patternOf pattern with
  | error bad => exact Or.inl ⟨bad, fun _ => rfl⟩
  | ok p =>
    cases Scan.patternOf ignored with
    | error bad => exact Or.inl ⟨bad, fun _ => rfl⟩
    | ok q => exact Or.inr ⟨p, q, fun _ => rfl⟩

namespace Rehearsal

/-- The directory that a run scans. -/
def scannedDirectory (cwd : Path) (options : Options) : Path :=
  (Path.ofText options.directory).absolute cwd

/-- The file that a run writes. -/
def writtenFile (cwd : Path) (options : Options) : Path :=
  (Path.ofText options.output).absolute cwd

/-- What becomes of the files that a scan found. -/
def chosen (cwd : Path) (options : Options) (found : List Path) :
    ExceptT Interruption (StateM Rehearsal) Selection :=
  match Scan.filter cwd (scannedDirectory cwd options) options.pattern options.ignored found with
  | .error bad =>
    if bad.isMalformed then
      (host cwd).fail options ("Error: Invalid regex pattern: ".toList ++ bad.message)
    else throw (.broken (.pattern bad))
  | .ok files => do
    let output ← outputPath (host cwd) options
    return {
      files := files.filter (· ≠ output)
      base := scannedDirectory cwd options
      origin := "directory scan".toList
      session := none }

/-- The selection of a scan: the directory must be there, and what is found is chosen from. -/
theorem scanned_eq :
    scanned (host cwd) options =
      if .directory ∈ options.valueless then throw (.broken .noPath)
      else need ((host cwd).files.isDirectory (scannedDirectory cwd options)) >>= fun isDirectory =>
        if isDirectory then do
          (host cwd).say options (.progress "Scanning directory...".toList)
          let found ← need (Scan.filesIn (host cwd).files cwd Scan.defaultExcluded
            (scannedDirectory cwd options))
          chosen cwd options found
        else (host cwd).fail options
          ("Error: '".toList ++ options.directory ++ "' is not a directory".toList) := by
  unfold scanned
  split
  · rfl
  · refine bind_congr fun isDirectory => ?_
    cases isDirectory with
    | true => rfl
    | false =>
      exact bind_assoc _ _ _

/-- The path of the written file is known unless its switch was given no value. -/
theorem outputPath_eq : outputPath (host cwd) options =
    if .output ∈ options.valueless then throw (.broken .noPath)
    else pure (writtenFile cwd options) := rfl

/-- The choice does not depend on whether the written file was found. -/
theorem chosen_congr {found others : List Path}
    (h : others.filter (· ≠ writtenFile cwd options) =
      found.filter (· ≠ writtenFile cwd options)) :
    chosen cwd options others = chosen cwd options found := by
  unfold chosen
  rcases filter_cases cwd (scannedDirectory cwd options) options.pattern options.ignored with
    ⟨bad, hbad⟩ | ⟨p, q, hgood⟩
  · rw [hbad, hbad]
  · rw [hgood, hgood, outputPath_eq]
    dsimp only
    split
    · rfl
    · rw [pure_bind, pure_bind, filter_select, filter_select, h]

/-- To the choice all trees are alike. -/
theorem alike_chosen (found : List Path) : Alike tree other (chosen cwd options found) := by
  unfold chosen
  split
  · split
    · exact .fail _
    · exact .throw _
  · rw [outputPath_eq]
    split
    · exact (Alike.throw _).bind fun _ => .pure _
    · exact (Alike.pure _).bind fun _ => .pure _

/-- What is chosen was found, is not the written file, and comes without a session. -/
theorem chosen_eq_ok {found : List Path} {rehearsal later : Rehearsal} {selection : Selection}
    (h : (chosen cwd options found).run.run rehearsal = (.ok selection, later)) :
    (∀ file ∈ selection.files, file ∈ found ∧ file ≠ writtenFile cwd options) ∧
      selection.session = none := by
  unfold chosen at h
  rcases filter_cases cwd (scannedDirectory cwd options) options.pattern options.ignored with
    ⟨bad, hbad⟩ | ⟨p, q, hgood⟩
  · rw [hbad] at h
    dsimp only at h
    split at h
    · obtain ⟨_, _, _, hthrow⟩ := run_bind_eq_ok h
      cases hthrow
    · cases h
  · rw [hgood, outputPath_eq] at h
    dsimp only at h
    split at h
    · cases h
    · cases h
      refine ⟨fun file hfile => ?_, rfl⟩
      obtain ⟨hchosen, hother⟩ := List.mem_filter.mp hfile
      exact ⟨(List.mem_filter.mp hchosen).1, of_decide_eq_true hother⟩

/-- A scan that ends well was of a directory, and what it chose is from the files below it. -/
theorem scanned_eq_ok {rehearsal later : Rehearsal} {selection : Selection}
    (h : (scanned (host cwd) options).run.run rehearsal = (.ok selection, later)) :
    rehearsal.tree.isDirectory (scannedDirectory cwd options) = .ok true ∧
      selection.session = none ∧
      ∃ found, Scan.filesIn rehearsal.tree.frozen cwd Scan.defaultExcluded
          (scannedDirectory cwd options) = pure found ∧
        ∀ file ∈ selection.files, file ∈ found ∧ file ≠ writtenFile cwd options := by
  rw [scanned_eq] at h
  split at h
  · cases h
  · obtain ⟨isDirectory, first, hdirectory, hscanning⟩ := run_bind_eq_ok h
    obtain ⟨hanswer, rfl⟩ := (asks_isDirectory cwd _).of_need hdirectory
    cases isDirectory with
    | false =>
      obtain ⟨_, _, _, hthrow⟩ := run_bind_eq_ok hscanning
      cases hthrow
    | true =>
      rw [if_pos rfl] at hscanning
      obtain ⟨_, second, hsay, hfinding⟩ := run_bind_eq_ok hscanning
      obtain ⟨found, third, hfound, hchosen⟩ := run_bind_eq_ok hfinding
      obtain ⟨hscan, -⟩ := (asks_filesBelow cwd _ _ _).of_need hfound
      obtain ⟨hfiles, hsession⟩ := chosen_eq_ok hchosen
      rw [(Alike.say _).tree_eq hsay] at hscan
      exact ⟨hanswer, hsession, found, hscan, hfiles⟩

/-- Answers that a map makes equal are the same fault, or values that the map makes equal. -/
theorem map_eq_map_cases {ε α β : Type} {f : α → β} {answer other : ExceptT ε Id α}
    (h : f <$> answer = f <$> other) :
    (∃ fault, answer = Except.error fault ∧ other = Except.error fault) ∨
      ∃ x y, answer = Except.ok x ∧ other = Except.ok y ∧ f x = f y := by
  cases answer with
  | error fault =>
    cases other with
    | error same =>
      cases h
      exact Or.inl ⟨fault, rfl, rfl⟩
    | ok y => cases h
  | ok x =>
    cases other with
    | error fault => cases h
    | ok y => exact Or.inr ⟨x, y, rfl, rfl, Except.ok.inj h⟩

/-- Two trees in which a scan finds the same files but for the written one are alike to a scan. -/
theorem alike_scanned
    (hdirectory : tree.isDirectory (scannedDirectory cwd options) = .ok true)
    (hother : other.isDirectory (scannedDirectory cwd options) = .ok true)
    (hscan : (·.filter (· ≠ writtenFile cwd options)) <$> Scan.filesIn other.frozen cwd
        Scan.defaultExcluded (scannedDirectory cwd options) =
      (·.filter (· ≠ writtenFile cwd options)) <$> Scan.filesIn tree.frozen cwd
        Scan.defaultExcluded (scannedDirectory cwd options)) :
    Alike tree other (scanned (host cwd) options) := by
  rw [scanned_eq]
  split
  · exact .throw _
  · refine (Alike.of_asks (asks_isDirectory cwd _) (hother.trans hdirectory.symm)).need.bind
      fun isDirectory => ?_
    split
    · refine (Alike.say _).bind fun _ lines => ?_
      have hasks := asks_filesBelow cwd Scan.defaultExcluded pathLimit
        ((scannedDirectory cwd options).absolute cwd)
      rw [run_bind, run_bind, Scan.filesIn, hasks.run_need, hasks.run_need]
      unfold Scan.filesIn at hscan
      dsimp only
      rcases map_eq_map_cases hscan with
        ⟨fault, hothers, hfound⟩ | ⟨others, found, hothers, hfound, hsame⟩
      · rw [hothers, hfound]
        exact ⟨_, lines, rfl, rfl⟩
      · rw [hothers, hfound]
        dsimp only [Except.mapError]
        rw [chosen_congr hsame]
        exact alike_chosen found lines
    · exact .fail _

/-- Without entries the files of a run are those of a scan. There must be one. -/
theorem select_eq {conventions : Conventions} (hentries : options.entries.getD [] = []) :
    select (host cwd) options conventions = scanned (host cwd) options >>= fun selection =>
      if selection.files = [] then
        (host cwd).fail options "Error: No files found matching the specified patterns".toList
      else pure selection := by
  have hselect : select (host cwd) options conventions =
      scanned (host cwd) options >>= fun selection => do
        if selection.files = [] then
          (host cwd).fail options "Error: No files found matching the specified patterns".toList
        return selection := by
    unfold select
    cases hoptions : options.entries with
    | none => rfl
    | some entries =>
      rw [hoptions, Option.getD_some] at hentries
      rw [hentries]
  rw [hselect]
  refine bind_congr fun selection => ?_
  by_cases hfiles : selection.files = []
  · rw [if_pos hfiles, if_pos hfiles]
    exact bind_assoc _ _ _
  · rw [if_neg hfiles, if_neg hfiles]

/-- Writing in a rehearsal is storing in its tree. -/
theorem run_write (path : Path) (bytes : List UInt8) (rehearsal : Rehearsal) :
    ((host cwd).files.write path bytes).run.run rehearsal =
      match rehearsal.tree.store path bytes with
      | .ok (after, shortage) => (.ok shortage, { rehearsal with tree := after })
      | .error fault => (.error fault, rehearsal) := by
  have htree : (Tree.system.write path bytes).run.run rehearsal.tree =
      match rehearsal.tree.store path bytes with
      | .ok (after, shortage) => (.ok shortage, after)
      | .error fault => (.error fault, rehearsal.tree) := by
    change (get >>= fun tree => Tree.system.liftExcept (tree.store path bytes) >>= fun outcome =>
      set outcome.1 >>= fun _ => pure outcome.2 :
        ExceptT Fault (StateM Tree) (Option Shortage)).run.run rehearsal.tree = _
    rw [run_bind]
    change (Tree.system.liftExcept _ >>= _ :
      ExceptT Fault (StateM Tree) (Option Shortage)).run.run rehearsal.tree = _
    rw [run_bind]
    cases rehearsal.tree.store path bytes <;> rfl
  change (((Tree.system.write path bytes).run.run rehearsal.tree).1,
    ({ rehearsal with tree := ((Tree.system.write path bytes).run.run rehearsal.tree).2 } :
      Rehearsal)) = _
  rw [htree]
  cases rehearsal.tree.store path bytes <;> rfl

/-- The outcome of writing is an answer, whichever it is. -/
theorem run_write_outcome (path : Path) (bytes : List UInt8) (rehearsal : Rehearsal) :
    (liftM ((host cwd).files.write path bytes).run :
      ExceptT Interruption (StateM Rehearsal) (Except Fault (Option Shortage))).run.run
        rehearsal =
        match rehearsal.tree.store path bytes with
        | .ok (after, shortage) => (.ok (.ok shortage), { rehearsal with tree := after })
        | .error fault => (.ok (.error fault), rehearsal) := by
  change (Except.ok (((host cwd).files.write path bytes).run.run rehearsal).1,
    (((host cwd).files.write path bytes).run.run rehearsal).2) = _
  rw [run_write]
  cases rehearsal.tree.store path bytes <;> rfl

/-- Putting a text to a file succeeds just when writing it does, and says nothing. -/
theorem run_put_eq_ok {complaint : Text} {path : Path} {text : Text}
    {rehearsal later : Rehearsal} :
    (put (host cwd) options complaint path text).run.run rehearsal = (.ok (), later) ↔
      ∃ after, rehearsal.tree.store path (Utf8.encode text) = .ok (after, none) ∧
        later = { rehearsal with tree := after } := by
  unfold put
  rw [run_bind, run_write_outcome]
  cases rehearsal.tree.store path (Utf8.encode text) with
  | ok outcome =>
    obtain ⟨after, shortage⟩ := outcome
    cases shortage with
    | none =>
      refine ⟨fun h => ?_, ?_⟩
      · cases h
        exact ⟨after, rfl, rfl⟩
      · rintro ⟨written, hwritten, rfl⟩
        cases hwritten
        rfl
    | some shortage =>
      refine ⟨fun h => ?_, ?_⟩
      · obtain ⟨_, _, _, hthrow⟩ := run_bind_eq_ok h
        cases hthrow
      · rintro ⟨written, hwritten, -⟩
        cases hwritten
  | error fault =>
    refine ⟨fun h => ?_, ?_⟩
    · cases fault with
      | nullInPath => cases h
      | failed cause path =>
        obtain ⟨_, _, _, hthrow⟩ := run_bind_eq_ok h
        cases hthrow
    · rintro ⟨written, hwritten, -⟩
      cases hwritten

/-- To the report of a graph that was not recorded all trees are alike. -/
theorem alike_putGraph {selection : Selection} (hsession : selection.session = none) :
    Alike tree other (putGraph (host cwd) options selection) := by
  unfold putGraph
  rw [hsession]
  split
  · exact .pure ()
  · exact .pure ()
  · exact .say _
  · rename_i hsome
    cases hsome

/-- Without settings and entries, a run selects files by a scan, composes their document and
delivers it. -/
theorem perform_eq (hsettings : options.settings.getD [] = []) :
    perform (host cwd) yaml options = select (host cwd) options {} >>= fun selection =>
      compose (host cwd) options {} selection >>= fun woven =>
        deliver (host cwd) options selection woven := by
  have hconventions : conventionsOf (host cwd) yaml options = pure {} := by
    unfold conventionsOf
    cases hoptions : options.settings with
    | none => rfl
    | some file =>
      rw [hoptions, Option.getD_some] at hsettings
      rw [hsettings]
  unfold perform
  rw [hconventions, pure_bind]

/-- What was selected without entries, a scan chose. -/
theorem scanned_of_select {conventions : Conventions} {rehearsal later : Rehearsal}
    {selection : Selection} (hentries : options.entries.getD [] = [])
    (h : (select (host cwd) options conventions).run.run rehearsal = (.ok selection, later)) :
    (scanned (host cwd) options).run.run rehearsal = (.ok selection, later) := by
  rw [select_eq hentries] at h
  obtain ⟨chosen, second, hscanned, hpassed⟩ := run_bind_eq_ok h
  split at hpassed
  · obtain ⟨_, _, _, hthrow⟩ := run_bind_eq_ok hpassed
    cases hthrow
  · cases hpassed
    exact hscanned

/-- Trees that are alike to a scan are alike to the selection, if there are no entries. -/
theorem alike_select (conventions : Conventions) (hentries : options.entries.getD [] = [])
    (h : Alike tree other (scanned (host cwd) options)) :
    Alike tree other (select (host cwd) options conventions) := by
  rw [select_eq hentries]
  refine h.bind fun selection => ?_
  split
  · exact .fail _
  · exact .pure _

/-- A delivery that succeeded stored the document, and would have ended the same on every tree that
storing the document turns into the same one. -/
theorem deliver_eq_ok {selection : Selection} {woven : Document.Woven}
    {rehearsal last : Rehearsal} (hsession : selection.session = none)
    (h : (deliver (host cwd) options selection woven).run.run rehearsal = (.ok (), last)) :
    rehearsal.tree.store (writtenFile cwd options) (Utf8.encode woven.text) =
        .ok (last.tree, none) ∧
      ∀ other : Tree,
        other.store (writtenFile cwd options) (Utf8.encode woven.text) = .ok (last.tree, none) →
          (deliver (host cwd) options selection woven).run.run ⟨other, rehearsal.lines⟩ =
            (.ok (), last) := by
  unfold deliver at h ⊢
  rw [outputPath_eq] at h ⊢
  split at h
  · cases h
  · rename_i hvalue
    rw [if_neg hvalue]
    rw [pure_bind] at h ⊢
    obtain ⟨_, second, hput, hrest⟩ := run_bind_eq_ok h
    obtain ⟨after, hwritten, rfl⟩ := run_put_eq_ok.mp hput
    have htree : last.tree = after :=
      ((alike_putGraph hsession).bind fun _ => .sayAll _).tree_eq hrest
    rw [htree]
    refine ⟨hwritten, fun other hother => ?_⟩
    have hagain : (put (host cwd) options "Error writing output".toList
        (writtenFile cwd options) woven.text).run.run ⟨other, rehearsal.lines⟩ =
          (.ok (), { rehearsal with tree := after }) :=
      run_put_eq_ok.mpr ⟨after, hother, rfl⟩
    rw [run_bind, hagain]
    exact hrest

/-- Writing the document of a run leaves the scanned directory there, what a scan of it finds but
for the document, and the texts of the other files that it finds. -/
theorem same_to_scan {bytes : List UInt8} (hlinks : tree.root.LinkFree)
    (hnames : tree.root.WellNamed) (hcwd : tree.cwd.IsNormal) (hroot : tree.cwd.start = .root)
    (hdirectory : Start.ofText options.directory ≠ .doubleRoot)
    (houtput : Start.ofText options.output ≠ .doubleRoot)
    (hisDirectory : tree.isDirectory (scannedDirectory tree.cwd options) = .ok true)
    (hwrites : tree.Writes (writtenFile tree.cwd options) bytes after) :
    after.isDirectory (scannedDirectory tree.cwd options) = .ok true ∧
      (·.filter (· ≠ writtenFile tree.cwd options)) <$> Scan.filesIn after.frozen tree.cwd
          Scan.defaultExcluded (scannedDirectory tree.cwd options) =
        (·.filter (· ≠ writtenFile tree.cwd options)) <$> Scan.filesIn tree.frozen tree.cwd
          Scan.defaultExcluded (scannedDirectory tree.cwd options) ∧
      ∀ found, Scan.filesIn tree.frozen tree.cwd Scan.defaultExcluded
          (scannedDirectory tree.cwd options) = pure found →
        ∀ file ∈ found, file ≠ writtenFile tree.cwd options → after.read file = tree.read file := by
  have hbase : (scannedDirectory tree.cwd options).IsNormal :=
    Path.absolute_ofText_isNormal options.directory hcwd
  have hstart : (scannedDirectory tree.cwd options).start = .root :=
    Path.start_absolute hroot hdirectory
  have hfile : (writtenFile tree.cwd options).IsNormal :=
    Path.absolute_ofText_isNormal options.output hcwd
  have hfileRoot : (writtenFile tree.cwd options).start = .root :=
    Path.start_absolute hroot houtput
  have hkept {path : Path} (hpath : path.IsNormal) (hroot : path.start = .root)
      (hne : path ≠ writtenFile tree.cwd options) :
      Tree.Kept tree after (writtenFile tree.cwd options) path :=
    hwrites.kept hlinks hpath fun hsame =>
      hne (Path.eq_of_start_names (hroot.trans hfileRoot.symm) hsame)
  refine ⟨?_, ?_, fun found hfound file hmem hne => ?_⟩
  · -- What is written is no directory, so it is not the scanned one.
    refine (hkept hbase hstart fun hsame => ?_).isDirectory_eq.trans hisDirectory
    have hnone := (hwrites.before_cases hlinks hfile).1
    rw [← hsame] at hnone
    cases hnone.symm.trans hisDirectory
  · unfold Scan.filesIn
    rw [hbase.absolute_eq]
    exact Scan.filter_filesBelow hwrites hlinks hnames hfile hfileRoot hbase hstart hisDirectory
  · unfold Scan.filesIn at hfound
    rw [hbase.absolute_eq] at hfound
    obtain ⟨hnormal, hfileStart, hisFile⟩ :=
      Scan.mem_filesBelow hlinks hnames hbase hstart hfound file hmem
    exact (hkept hnormal hfileStart hne).read_eq hisFile

end Rehearsal

open Rehearsal

/-- The same bytes can be stored again where they were written, and nothing changes. -/
theorem store_again {file : Path} {bytes : List UInt8}
    (hstored : tree.store file bytes = .ok (after, none))
    (hagain : after.write file bytes = .ok after) : after.store file bytes = .ok (after, none) := by
  obtain ⟨place, hspot, hwrite, hfits⟩ := Tree.store_eq_ok_iff.mp hstored
  have hwrote := Tree.wrote_of_write hwrite
  have hfit (given : List UInt8) : after.fit place given = tree.fit place given := by
    rw [Tree.fit, Tree.fit, Tree.record, Tree.record, hwrote.records_eq]
  have hall : (tree.fit place bytes).1 = bytes := (tree.fit_cases place bytes).2 hfits
  refine Tree.store_eq_ok_iff.mpr ⟨place, (hwrote.spot?_eq file).trans hspot, ?_, ?_⟩
  · rw [hfit, hall]
    exact hagain
  · rw [hfit]
    exact hfits

/-- A run without entries, settings and a drawing, and that succeeds, can be repeated on the tree
that it leaves behind. -/
theorem rehearse_repeats {last : Rehearsal} (hlinks : tree.root.LinkFree)
    (hnames : tree.root.WellNamed) (hcwd : tree.cwd.IsNormal) (hroot : tree.cwd.start = .root)
    (hentries : options.entries.getD [] = []) (hsettings : options.settings.getD [] = [])
    (hdrawing : options.drawing = false)
    (hdirectory : Start.ofText options.directory ≠ .doubleRoot)
    (houtput : Start.ofText options.output ≠ .doubleRoot)
    (hsingle : tree.IsSingle (writtenFile tree.cwd options).names)
    (h : rehearse yaml tree options = (.ok (), last)) :
    rehearse yaml last.tree options = (.ok (), last) := by
  have hfile : (writtenFile tree.cwd options).IsNormal :=
    Path.absolute_ofText_isNormal options.output hcwd
  have hrun := h
  unfold rehearse at hrun
  rw [perform_eq hsettings] at hrun
  obtain ⟨selection, first, hselect, hcomposing⟩ := run_bind_eq_ok hrun
  obtain ⟨woven, second, hcompose, hdelivering⟩ := run_bind_eq_ok hcomposing
  obtain ⟨hisDirectory, hsession, found, hfound, hchosen⟩ :=
    scanned_eq_ok (scanned_of_select hentries hselect)
  -- The first run reaches its delivery without having changed the tree.
  have hfirst : first.tree = tree :=
    (alike_select {} hentries (alike_scanned hisDirectory hisDirectory rfl)).tree_eq hselect
  have hsecond : second.tree = tree :=
    ((alike_compose {} hdrawing fun _ _ => rfl).tree_eq hcompose).trans hfirst
  obtain ⟨hstored, hdeliver⟩ := deliver_eq_ok hsession hdelivering
  rw [hsecond] at hstored
  obtain ⟨place, -, hwritten, hfits⟩ := Tree.store_eq_ok_iff.mp hstored
  rw [(tree.fit_cases place _).2 hfits] at hwritten
  rcases Tree.writes_of_write hlinks hfile hsingle hwritten with hsame | hwrites
  · -- A special file took the document, and the tree is as it was.
    rw [hsame]
    exact h
  obtain ⟨hagain, hscan, htexts⟩ := same_to_scan hlinks hnames hcwd hroot hdirectory houtput
    hisDirectory hwrites
  have hread : ∀ file ∈ selection.files, last.tree.read file = tree.read file := fun file hmem =>
    htexts found hfound file (hchosen file hmem).1 (hchosen file hmem).2
  -- The second run says the same up to its delivery, and then writes what is there already.
  obtain ⟨answer, said, hone, htwo⟩ :=
    alike_select {} hentries (alike_scanned hisDirectory hagain hscan) []
  cases hone.symm.trans hselect
  have hcomposed : Alike tree last.tree (compose (host tree.cwd) options {} selection) :=
    alike_compose {} hdrawing hread
  obtain ⟨answer, words, hthree, hfour⟩ := hcomposed said
  cases hthree.symm.trans hcompose
  have hcwdSame : last.tree.cwd = tree.cwd := by
    obtain ⟨permissions, -, hafter⟩ := hwrites.after_eq
    rw [hafter]
  unfold rehearse
  rw [hcwdSame, perform_eq hsettings, run_bind, htwo]
  dsimp only
  rw [run_bind, hfour]
  exact hdeliver last.tree (store_again hstored (hwrites.write_again hlinks hfile hsingle))

/-- A run that scans a directory and draws nothing, and that succeeds, leaves a tree on which it can
be repeated: it says the same lines, succeeds again, and leaves the same tree. The tree has no
links, the entries of its directories have names of their own kind, and the file that is written has
no second name. No path that the run is given begins with exactly two slashes. -/
theorem rehearse_again {arguments : List Text} {last : Rehearsal}
    (harguments : Options.read arguments = .ok options) (hscan : Options.AsksForScan arguments)
    (hlinks : tree.root.LinkFree) (hnames : tree.root.WellNamed) (hcwd : tree.cwd.IsNormal)
    (hroot : tree.cwd.start = .root)
    (hdirectory : Start.ofText options.directory ≠ .doubleRoot)
    (houtput : Start.ofText options.output ≠ .doubleRoot)
    (hsingle : tree.IsSingle (writtenFile tree.cwd options).names)
    (h : rehearse yaml tree options = (.ok (), last)) :
    rehearse yaml last.tree options = (.ok (), last) := by
  obtain ⟨hentries, hsettings, hdrawing⟩ := hscan.options_of_read harguments
  refine rehearse_repeats hlinks hnames hcwd hroot ?_ ?_ hdrawing hdirectory houtput hsingle h
  · rw [hentries]
    rfl
  · rw [hsettings]
    rfl

/-- A working directory with some entries. -/
def workTree (entries : List (Name × Node)) : Tree where
  root := .directory .ofDirectory [("w".toList, .directory .ofDirectory entries)]
  cwd := ⟨.root, ["w".toList]⟩

/-- A working directory with one directory in it, in which there is one file. -/
def smallTree : Tree := workTree
  [("lib".toList, .directory .ofDirectory
    [("a.js".toList, .file .ofFile (Utf8.encode "f(1)".toList))])]

/-- A command line that scans the working directory, and whose document lies in the scanned
directory. -/
def inwardArguments : List Text :=
  ["-o".toList, "lib/all.txt".toList, "--tree".toList, "--no-tree".toList]

/-- The options of this command line. -/
def inwardOptions : Options where
  output := "lib/all.txt".toList
  drawing := false

/-- The second run passes over the document of the first one and leaves it as it is. -/
theorem rehearse_again_inward :
    Options.read inwardArguments = .ok inwardOptions ∧
      (rehearse Yaml.read smallTree inwardOptions).2.tree.read
          (writtenFile smallTree.cwd inwardOptions) =
        .ok (Utf8.encode ("=".toList.flatMap (List.replicate 50) ++ "\nFile: lib/a.js\n".toList ++
          "=".toList.flatMap (List.replicate 50) ++ "\n\nf(1)".toList)) ∧
      rehearse Yaml.read (rehearse Yaml.read smallTree inwardOptions).2.tree inwardOptions =
        (.ok (), (rehearse Yaml.read smallTree inwardOptions).2) := by
  have harguments : Options.read inwardArguments = .ok inwardOptions := by decide +kernel
  have hscan : Options.AsksForScan inwardArguments := by
    refine ⟨by decide +kernel, by decide +kernel, ?_⟩
    have huses : Options.usesOf inwardArguments =
        [⟨.output, "-o".toList, none⟩, ⟨.drawing, "--tree".toList, none⟩] ++
          ⟨.drawing, "--no-tree".toList, none⟩ :: [] := by decide +kernel
    exact ⟨_, _, _, huses, rfl, rfl, nofun⟩
  have hsuccess : (rehearse Yaml.read smallTree inwardOptions).1 = .ok () := by decide +kernel
  have hlinks : smallTree.root.LinkFree :=
    .directory (List.forall_mem_singleton.mpr (.directory (List.forall_mem_singleton.mpr
      (.directory (List.forall_mem_singleton.mpr (.file _ _))))))
  have hnames : smallTree.root.WellNamed :=
    .directory (by decide) (List.forall_mem_singleton.mpr (.directory (by decide)
      (List.forall_mem_singleton.mpr (.directory (by decide)
        (List.forall_mem_singleton.mpr (.file _ _))))))
  have hcwd : smallTree.cwd.IsNormal := ⟨rfl, by unfold Path.IsClean; decide, by decide⟩
  have hsingle : smallTree.IsSingle (writtenFile smallTree.cwd inwardOptions).names :=
    List.forall_mem_singleton.mpr rfl
  exact ⟨harguments, by decide +kernel, rehearse_again harguments hscan hlinks hnames hcwd rfl
    (by decide) (by decide) hsingle (Prod.ext hsuccess rfl)⟩

/-- If a run succeeds, it succeeds again on the tree that it leaves behind, and its file is then
what it is now. -/
def Repeats (tree : Tree) (options : Options) : Prop :=
  ∀ last, rehearse Yaml.read tree options = (.ok (), last) →
    ∃ again, rehearse Yaml.read last.tree options = (.ok (), again) ∧
      again.tree.read (writtenFile tree.cwd options) =
        last.tree.read (writtenFile tree.cwd options)

/-- A run that succeeds but leaves another file the second time does not repeat. -/
theorem not_repeats (hsuccess : (rehearse Yaml.read tree options).1 = .ok ())
    (hchanged : (rehearse Yaml.read (rehearse Yaml.read tree options).2.tree options).2.tree.read
        (writtenFile tree.cwd options) ≠
      (rehearse Yaml.read tree options).2.tree.read (writtenFile tree.cwd options)) :
    ¬Repeats tree options := by
  intro hrepeats
  obtain ⟨again, hagain, hsame⟩ := hrepeats _ (Prod.ext hsuccess rfl)
  rw [hagain] at hchanged
  exact hchanged hsame

/-- A working directory with the document of an earlier run, and a directory with a file that is
another name of it. -/
def twiceNamedTree : Tree where
  root := .directory .ofDirectory
    [("w".toList, .directory .ofDirectory
      [("lib".toList, .directory .ofDirectory [("a.js".toList, .file .ofFile [])]),
        ("all.txt".toList, .file .ofFile [])])]
  cwd := ⟨.root, ["w".toList]⟩
  records := [{ names :=
    [["w".toList, "lib".toList, "a.js".toList], ["w".toList, "all.txt".toList]] }]

/-- A working directory given with two slashes, with the document of an earlier run. -/
def slashedTree : Tree where
  root := .directory .ofDirectory
    [("w".toList, .directory .ofDirectory [("all.txt".toList, .file .ofFile [])])]
  cwd := ⟨.doubleRoot, ["w".toList]⟩

/-- A command line for a scan without a drawing. -/
def plainArguments (directory : Text) : List Text :=
  ["-d".toList, directory, "-o".toList, "/w/all.txt".toList, "--no-tree".toList]

/-- The options of this command line. -/
def plainOptions (directory : Text) : Options where
  directory := directory
  output := "/w/all.txt".toList
  drawing := false

/-- These command lines ask for a scan and nothing besides. -/
theorem asksForScan_plain {directory : Text} (hdirectory : directory ∈ [".".toList, "lib".toList]) :
    Options.read (plainArguments directory) = .ok (plainOptions directory) ∧
      Options.AsksForScan (plainArguments directory) := by
  have huses : Options.usesOf (plainArguments directory) =
      [⟨.directory, "-d".toList, none⟩, ⟨.output, "-o".toList, none⟩] ++
        ⟨.drawing, "--no-tree".toList, none⟩ :: [] := by
    revert directory
    decide +kernel
  refine ⟨?_, ?_, ?_, _, _, _, huses, rfl, rfl, nofun⟩
  · revert directory
    decide +kernel
  · rw [huses]
    decide
  · rw [huses]
    decide

/-- A run does not repeat if its document is a second name of a file that it weaves, or if the
working directory is given with two slashes, so that the document is not recognised. And a command
line that forgoes the drawing can still ask for it, with a later word. -/
theorem exists_run_unrepeated :
    (twiceNamedTree.root.LinkFree ∧
      Options.read (plainArguments "lib".toList) = .ok (plainOptions "lib".toList) ∧
      Options.AsksForScan (plainArguments "lib".toList) ∧
      ¬Repeats twiceNamedTree (plainOptions "lib".toList)) ∧
    (slashedTree.root.LinkFree ∧
      Options.read (plainArguments ".".toList) = .ok (plainOptions ".".toList) ∧
      Options.AsksForScan (plainArguments ".".toList) ∧
      ¬Repeats slashedTree (plainOptions ".".toList)) ∧
    Options.read (plainArguments ".".toList ++ ["--tree".toList]) =
      .ok { plainOptions ".".toList with drawing := true } := by
  obtain ⟨hlib, hscanLib⟩ := asksForScan_plain (List.mem_cons_of_mem _ (List.mem_singleton.mpr rfl))
  obtain ⟨hhere, hscanHere⟩ := asksForScan_plain List.mem_cons_self
  have hlinks : twiceNamedTree.root.LinkFree :=
    .directory (List.forall_mem_singleton.mpr (.directory (List.forall_mem_cons.mpr
      ⟨.directory (List.forall_mem_singleton.mpr (.file _ _)),
        List.forall_mem_singleton.mpr (.file _ _)⟩)))
  have hslashed : slashedTree.root.LinkFree :=
    .directory (List.forall_mem_singleton.mpr (.directory
      (List.forall_mem_singleton.mpr (.file _ _))))
  refine ⟨⟨hlinks, hlib, hscanLib, ?_⟩, ⟨hslashed, hhere, hscanHere, ?_⟩, by decide +kernel⟩
  · exact not_repeats (by decide +kernel) (by decide +kernel)
  · exact not_repeats (by decide +kernel) (by decide +kernel)

end SourceLoom.Run
