import SourceLoom.Proofs.Traversal.Termination

/-!
# What a session depends on

A session asks about many paths, but it reads few files: each of them was reported before, at a
depth short of the bound. So two disks that differ in the texts of other files cannot be told
apart by it. Whatever is in a file that is not given, or is given at the bound, the session comes
to the same, question by question.
-/

namespace SourceLoom.Traversal

open Reference BreadthFirst

/-- The world with other texts in its files, and so many files to reckon with. -/
def World.withTexts (world : World) (readText : History → Path → Except Files.Fault Text)
    (fileCount : Nat) : World := { world with readText, fileCount }

section Reading

variable {world : World} {plan : Plan} {root : Option Path} {file : Path} {depth : Nat}
  {history later : History}

/-- Whatever a file is read in, it was reported short of the bound. -/
theorem World.Meets.reads_reported {sight : Sight}
    (h : world.Meets plan root file depth history sight later) :
    ∀ x ∈ sight.reads file, (x, depth) ∈ (sight.kept file).map (·, depth) ∧
      ∀ limit ∈ plan.maxDepth, depth < limit := by
  have hshort : plan.maxDepth.any (· ≤ depth) = false → ∀ limit ∈ plan.maxDepth, depth < limit := by
    rintro hbound limit hlimit
    exact within_succ hbound limit hlimit
  intro x hx
  cases h with
  | barred _ => exact absurd hx List.not_mem_nil
  | gone _ => exact absurd hx List.not_mem_nil
  | atBound _ _ => exact absurd hx List.not_mem_nil
  | unread _ hbound _ => exact ⟨List.mem_map_of_mem hx, hshort hbound⟩
  | read _ hbound _ _ _ => exact ⟨List.mem_map_of_mem hx, hshort hbound⟩

/-- Every file that a run reads was reported short of the bound. -/
theorem World.Proceeds.reads_reported {search final : Search} {steps : List Step}
    (h : world.Proceeds plan root search history steps final later) :
    ∀ x ∈ steps.flatMap Step.reads, ∃ depth, (x, depth) ∈ steps.flatMap Step.reports ∧
      ∀ limit ∈ plan.maxDepth, depth < limit := by
  induction h with
  | rest search history => exact fun x hx => absurd hx List.not_mem_nil
  | take _ hmeets _ ih =>
    intro x hx
    rw [List.flatMap_cons, List.mem_append] at hx
    rw [List.flatMap_cons]
    rcases hx with hx | hx
    · obtain ⟨hreport, hshort⟩ := hmeets.reads_reported x hx
      exact ⟨_, List.mem_append_left _ hreport, hshort⟩
    · obtain ⟨depth, hreport, hshort⟩ := ih x hx
      exact ⟨depth, List.mem_append_right _ hreport, hshort⟩

variable {texts : History → Path → Except Files.Fault Text} {count : Nat}

/-- The references of a file are examined without reading any file. -/
theorem World.Examines.withTexts {conventions : Conventions} {findings : List (Text × Finding)}
    (h : world.Examines conventions root file history findings later) :
    (world.withTexts texts count).Examines conventions root file history findings later := by
  induction h with
  | done history => exact .done history
  | external hlocal _ ih => exact .external hlocal ih
  | faulty hlocal hresolve _ ih => exact .faulty hlocal hresolve ih
  | missing hlocal hresolve _ ih => exact .missing hlocal hresolve ih
  | leads hlocal hresolve _ ih => exact .leads hlocal hresolve ih

/-- A file comes to the same sight if it has the same text, or is not read. -/
theorem World.Meets.withTexts {sight : Sight}
    (h : world.Meets plan root file depth history sight later)
    (htexts : ∀ x ∈ sight.reads file, ∀ now, texts now x = world.readText now x) :
    (world.withTexts texts count).Meets plan root file depth history sight later := by
  have hsame : file ∈ sight.reads file → texts (reported history file depth) file =
      world.readText (reported history file depth) file := fun hmem => htexts file hmem _
  cases h with
  | barred hseen => exact .barred hseen
  | gone hseen => exact .gone hseen
  | atBound hseen hbound => exact .atBound hseen hbound
  | unread hseen hbound hread =>
    exact .unread hseen hbound ((hsame List.mem_cons_self).trans hread)
  | read hseen hbound hread hfst hexamines =>
    exact .read hseen hbound ((hsame List.mem_cons_self).trans hread) hfst hexamines.withTexts

/-- A run goes in the same way if the files that it reads have the same texts. -/
theorem World.Proceeds.withTexts {search final : Search} {steps : List Step}
    (h : world.Proceeds plan root search history steps final later)
    (htexts : ∀ x ∈ steps.flatMap Step.reads, ∀ now, texts now x = world.readText now x) :
    (world.withTexts texts count).Proceeds plan root search history steps final later := by
  induction h with
  | rest search history => exact .rest search history
  | take hq hmeets _ ih =>
    rw [List.flatMap_cons] at htexts
    exact .take hq (hmeets.withTexts fun x hx => htexts x (List.mem_append_left _ hx))
      (ih fun x hx => htexts x (List.mem_append_right _ hx))

end Reading

namespace Disk

/-- Two disks have the same working directory, and both questions about a path are answered in the
same way on them. -/
structure SamePaths (disk other : Disk) : Prop where
  /-- The working directory is the same. -/
  cwd_eq : other.cwd = disk.cwd
  /-- The same paths lead to something. -/
  holds_eq : ∀ path, other.holds path = disk.holds path
  /-- The same paths lead to regular files. -/
  isFile_eq : ∀ path, other.isFile path = disk.isFile path

/-- The reported files that are short of a bound have the same texts on another disk, or cannot be
read for the same reasons. -/
def SharesTexts (disk other : Disk) (bound : Option Nat) (reached : List (Path × Nat)) : Prop :=
  ∀ report ∈ reached, (∀ limit ∈ bound, report.2 < limit) →
    other.readText report.1 = disk.readText report.1

variable {disk other : Disk} {plan : Plan} {entry : Text} {session later : Session}
  {history after : History} {answer : Except Trouble (List Path)} {reached : List (Path × Nat)}

/-- The other disk is this one with other texts. -/
theorem SamePaths.world_eq (h : disk.SamePaths other) :
    other.world = disk.world.withTexts (fun _ => other.readText) other.fileCount := by
  obtain ⟨cwd, _, holds, isFile, readText, _, _, _, fileCount, _⟩ := other
  have hcwd := h.cwd_eq
  have hholds : holds = disk.holds := funext h.holds_eq
  have hisFile : isFile = disk.isFile := funext h.isFile_eq
  subst hcwd hholds hisFile
  rfl

/-- Both disks have the same regular files. -/
theorem SamePaths.regular_eq (h : disk.SamePaths other) : other.regular = disk.regular := by
  ext path
  simp only [regular, Set.mem_ofPred_eq, h.isFile_eq]

/-- The loop of an entry on one disk is that on the other, and it ends there, too. -/
theorem SamePaths.exists_emptied (h : disk.SamePaths other) {root : Option Path}
    (ha : session.Aligned) (hnew : disk.place entry ∉ session.visited)
    (hfile : disk.isFile (disk.place entry) = .ok true)
    (hroot : ∀ directory ∈ root, directory.IsClean) (history : History) :
    ∃ steps final later, disk.world.Proceeds plan root
        (Search.start session (disk.place entry)) history steps final later ∧
      final.queue = [] ∧ steps.length ≤ disk.fileCount ∧ steps.length ≤ other.fileCount := by
  obtain ⟨steps, final, later, hproceeds, hempty, hle, hleft⟩ :=
    Disk.exists_emptied disk plan ha hnew hfile hroot history
  have hall := disk.unvisited_le session.visited
  have hother := other.ncard_regular_le
  rw [h.regular_eq] at hother
  exact ⟨steps, final, later, hproceeds, hempty, hle, by omega⟩

/-- Following an entry comes to the same on both disks if the files that it reports short of the
bound have the same texts. -/
theorem SamePaths.follow_eq (h : disk.SamePaths other) (ha : session.Aligned)
    (hrun : (follow disk.surroundings plan entry session).run history = ((answer, later), after))
    (hreports : reports after = reports history ++ reached)
    (htexts : disk.SharesTexts other plan.maxDepth reached) :
    (follow other.surroundings plan entry session).run history = ((answer, later), after) := by
  have hplace : disk.world.place entry = disk.place entry := rfl
  unfold surroundings at hrun ⊢
  rw [h.world_eq]
  by_cases hadmits : disk.world.Admits history (disk.world.place entry)
  · have hadmits' : (disk.world.withTexts (fun _ => other.readText) other.fileCount).Admits history
        (disk.world.place entry) := ⟨hadmits.holds, hadmits.isFile⟩
    by_cases hold : disk.world.place entry ∈ session.visited
    · cases hrun.symm.trans (follow_known hadmits plan hold)
      exact follow_known hadmits' plan hold
    · cases hfound : (findRoot plan.conventions disk.world.surroundings.holds disk.world.cwd
          (disk.world.place entry)).run.run (admitted history (disk.world.place entry)) with
      | mk found asked =>
        cases found with
        | error fault =>
          cases hrun.symm.trans (follow_rootless hadmits hold hfound)
          exact follow_rootless hadmits' hold hfound
        | ok root =>
          obtain ⟨steps, final, mid, hproceeds, hempty, hle, hle'⟩ :=
            h.exists_emptied ha hold hadmits.isFile (findRoot_place_isClean hfound)
              (asked ++ [.told (.rootSought (disk.world.place entry) root)])
          have hserves : disk.world.Serves plan entry session history (.ok final.found)
              final.session steps mid := .searched hadmits hold hfound hproceeds (Or.inl hempty)
          cases hrun.symm.trans (follow_searched hadmits hold hfound
            (hproceeds.run_of_over (Or.inl hempty) hle))
          have hreached : reached = steps.flatMap Step.reports :=
            List.append_cancel_left (hreports.symm.trans hserves.adds.reports_eq)
          have hsame : ∀ x ∈ steps.flatMap Step.reads, ∀ now : History,
              other.readText x = disk.world.readText now x := by
            intro x hx _
            obtain ⟨depth, hreport, hshort⟩ := hproceeds.reads_reported x hx
            exact htexts (x, depth) (hreached ▸ hreport) hshort
          exact follow_searched hadmits' hold hfound
            ((hproceeds.withTexts hsame).run_of_over (Or.inl hempty) hle')
  · obtain ⟨status, between, hstatus, hrefused, -⟩ := status_run_of_not_admits hadmits
    have hstatus' : ((disk.world.withTexts (fun _ => other.readText) other.fileCount).status
        (disk.world.place entry)).run history = (status, between) := hstatus
    cases hrun.symm.trans (follow_of_status plan hstatus hrefused session)
    exact follow_of_status plan hstatus' hrefused session

/-- The texts of all reported files are shared if those of the first and of the later ones are. -/
theorem sharesTexts_append {bound : Option Nat} {first others : List (Path × Nat)} :
    disk.SharesTexts other bound (first ++ others) ↔
      disk.SharesTexts other bound first ∧ disk.SharesTexts other bound others :=
  List.forall_mem_append

/-- Following an entry on a disk reports what it gives. If another disk shares the texts of what is
reported, following the entry there comes to the same. -/
theorem SamePaths.follow_run (h : disk.SamePaths other) (plan : Plan) (ha : session.Aligned)
    (entry : Text) (history : History) :
    ∃ answer later after reached,
      (follow disk.surroundings plan entry session).run history = ((answer, later), after) ∧
        later.Aligned ∧ reports after = reports history ++ reached ∧
        reached.map Prod.fst = answer.toOption.toList.flatten ∧
        (disk.SharesTexts other plan.maxDepth reached →
          (follow other.surroundings plan entry session).run history =
            ((answer, later), after)) := by
  obtain ⟨answer, later, steps, after, hfollows, hadds, hrun⟩ :=
    Traversal.follow_run disk.world plan ha entry history
  obtain ⟨hlater, hanswer, -⟩ := hfollows.extends ha
  refine ⟨answer, later, after, _, hrun, hlater, hadds.reports_eq, ?_,
    h.follow_eq ha hrun hadds.reports_eq⟩
  rw [hanswer, Step.reports_fst]

/-- The same of several entries, whatever comes of those before. -/
theorem SamePaths.followOn_run (h : disk.SamePaths other) (plan : Plan) (ha : session.Aligned)
    (entries : List Text) (history : History) :
    ∃ answers later after reached,
      (followOn disk.surroundings plan entries session).run history = ((answers, later), after) ∧
        reports after = reports history ++ reached ∧
        reached.map Prod.fst = answers.flatMap (·.toOption.toList.flatten) ∧
        (disk.SharesTexts other plan.maxDepth reached →
          (followOn other.surroundings plan entries session).run history =
            ((answers, later), after)) := by
  induction entries generalizing session history with
  | nil => exact ⟨[], session, history, [], rfl, (List.append_nil _).symm, rfl, fun _ => rfl⟩
  | cons entry entries ih =>
    obtain ⟨answer, next, between, first, hrun, hnext, hfirst, hgiven, hsame⟩ :=
      h.follow_run plan ha entry history
    obtain ⟨answers, later, after, others, hruns, hothers, hgivens, hsames⟩ := ih hnext between
    refine ⟨answer :: answers, later, after, first ++ others, ?_, ?_, ?_, ?_⟩
    · rw [followOn, run_bind, hrun]
      dsimp only
      rw [run_bind, hruns]
      rfl
    · rw [hothers, hfirst, List.append_assoc]
    · rw [List.map_append, hgiven, hgivens, List.flatMap_cons]
    · intro htexts
      obtain ⟨hshared, hshareds⟩ := sharesTexts_append.mp htexts
      rw [followOn, run_bind, hsame hshared]
      dsimp only
      rw [run_bind, hsames hshareds]
      rfl

/-- The same of several entries up to the first fault. -/
theorem SamePaths.followEach_run (h : disk.SamePaths other) (plan : Plan) (ha : session.Aligned)
    (entries : List Text) (history : History) :
    ∃ answer later after reached,
      (followEach disk.surroundings plan entries session).run history = ((answer, later), after) ∧
        reports after = reports history ++ reached ∧
        (∀ files, answer = .ok files → files = reached.map Prod.fst) ∧
        (disk.SharesTexts other plan.maxDepth reached →
          (followEach other.surroundings plan entries session).run history =
            ((answer, later), after)) := by
  induction entries generalizing session history with
  | nil =>
    refine ⟨.ok [], session, history, [], rfl, (List.append_nil _).symm, ?_, fun _ => rfl⟩
    rintro files ⟨⟩
    rfl
  | cons entry entries ih =>
    obtain ⟨answer, next, between, first, hrun, hnext, hfirst, hgiven, hsame⟩ :=
      h.follow_run plan ha entry history
    cases answer with
    | error trouble =>
      exact ⟨.error trouble, next, between, first, followEach_cons_error hrun entries, hfirst,
        nofun, fun htexts => followEach_cons_error (hsame htexts) entries⟩
    | ok files =>
      obtain ⟨answer, later, after, others, hruns, hothers, hgivens, hsames⟩ := ih hnext between
      refine ⟨answer.map (files ++ ·), later, after, first ++ others, followEach_cons hrun hruns,
        ?_, ?_, fun htexts => ?_⟩
      · rw [hothers, hfirst, List.append_assoc]
      · intro all hall
        cases answer with
        | error trouble => cases hall
        | ok more =>
          cases hall
          rw [List.map_append, hgiven, ← hgivens more rfl, flatten_toOption_ok]
      · obtain ⟨hshared, hshareds⟩ := sharesTexts_append.mp htexts
        exact followEach_cons (hsame hshared) (hsames hshareds)

end Disk

/-- In every state that a session comes to, it depends only on the texts of the files that it then
reports short of the bound: on a disk on which the same paths lead to something and to regular
files, and on which these files have the same texts, it gives the same lists, tells the same, has
the same graph and the same warnings, and even asks the same questions. The files that it reports
are those that it gives. -/
theorem Reached.other_texts_irrelevant {world : World} {plan : Plan} {lists : List (List Path)}
    {session : Session} {history : History} (h : Reached world plan lists session history)
    {disk other : Disk} (hpaths : disk.SamePaths other) (entries : List Text) (since : History) :
    (∃ answers later after reached,
      (followOn disk.surroundings plan entries session).run since = ((answers, later), after) ∧
        reports after = reports since ++ reached ∧
        reached.map Prod.fst = answers.flatMap (·.toOption.toList.flatten) ∧
        (disk.SharesTexts other plan.maxDepth reached →
          (followOn other.surroundings plan entries session).run since =
            ((answers, later), after))) ∧
    ∃ answer : Except Trouble (List Path), ∃ later after reached,
      (followAll disk.surroundings plan entries session).run since =
          ((answer.map List.eraseDups, later), after) ∧
        reports after = reports since ++ reached ∧
        (∀ files, answer = .ok files → files = reached.map Prod.fst) ∧
        (disk.SharesTexts other plan.maxDepth reached →
          (followAll other.surroundings plan entries session).run since =
            ((answer.map List.eraseDups, later), after)) := by
  refine ⟨hpaths.followOn_run plan h.invariant.1 entries since, ?_⟩
  obtain ⟨answer, later, after, reached, hrun, hreports, hgiven, hsame⟩ :=
    hpaths.followEach_run plan h.invariant.1 entries since
  refine ⟨answer, later, after, reached, ?_, hreports, hgiven, fun htexts => ?_⟩
  · rw [followAll, run_bind, hrun]
    rfl
  · rw [followAll, run_bind, hsame htexts]
    rfl

/-- The chain with other texts in all files but the first one: they import it. -/
def otherChain : Disk :=
  { chain with
    readText := fun path =>
      if path = chain.place "a.js".toList then chain.readText path
      else .ok "import './a';".toList }

/-- With one import allowed, the second file of the chain is not read and the third not given, so
their texts do not matter. -/
theorem other_texts_irrelevant_chain :
    chain.SamePaths otherChain ∧
      otherChain.readText (chain.place "b.js".toList) ≠ chain.readText (chain.place "b.js".toList) ∧
      (followAll otherChain.surroundings { maxDepth := some 1 } ["a.js".toList] {}).run [] =
        (followAll chain.surroundings { maxDepth := some 1 } ["a.js".toList] {}).run [] := by
  have hpaths : chain.SamePaths otherChain := ⟨rfl, fun _ => rfl, fun _ => rfl⟩
  refine ⟨hpaths, by decide +kernel, ?_⟩
  have hfresh : Reached chain.world { maxDepth := some 1 } [] {} [] := .fresh
  obtain ⟨-, answer, later, after, reached, hrun, hreports, -, hsame⟩ :=
    hfresh.other_texts_irrelevant hpaths ["a.js".toList] []
  have hafter : reports ((followAll chain.surroundings { maxDepth := some 1 } ["a.js".toList]
      {}).run []).2 = [(chain.place "a.js".toList, 0), (chain.place "b.js".toList, 1)] := by
    decide +kernel
  rw [hrun] at hafter
  have hreached : reached = [(chain.place "a.js".toList, 0), (chain.place "b.js".toList, 1)] :=
    hreports.symm.trans hafter
  have hfirst : otherChain.readText (chain.place "a.js".toList) =
      chain.readText (chain.place "a.js".toList) := by
    simp only [otherChain, if_true]
  have htexts : chain.SharesTexts otherChain (some 1) reached := by
    rw [hreached]
    intro report hmem hshort
    rcases List.mem_cons.mp hmem with rfl | hmem
    · exact hfirst
    · rw [List.mem_singleton.mp hmem] at hshort
      exact absurd (hshort 1 rfl) (Nat.lt_irrefl 1)
  rw [hrun]
  exact hsame htexts

end SourceLoom.Traversal
