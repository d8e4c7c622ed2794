import SourceLoom.Proofs.Traversal.Books
import SourceLoom.Proofs.Traversal.TreeDisk

/-!
# The ledger of a session

A file is expanded when its text is read: each of its references then comes to a finding. The
ledger of a session lists these expansions, with the histories around them. The books hold for a
file what the ledger says of it and nothing else. Since no file is read twice, every reference of
an expanded file is accounted for in one way, and nothing is recorded for any other file.
-/

namespace SourceLoom.Traversal

open Reference BreadthFirst

/-- The files whose texts were read in a history, each with its text. -/
def texts (history : History) : List (Path × Text) :=
  history.filterMap fun
    | .readText file (.ok text) => some (file, text)
    | _ => none

/-- The root that was sought last in a history. -/
def sought (history : History) : Option Path :=
  (history.filterMap fun
    | .told (.rootSought _ root) => some root
    | _ => none).getLast?.join

/-- The reading of a file, and what the references in its text came to. -/
structure Expansion where
  /-- The file. -/
  file : Path
  /-- Its text. -/
  text : Text
  /-- The history when it was read. -/
  before : History
  /-- What its references came to. -/
  findings : List (Text × Finding)
  /-- The history when they were examined. -/
  later : History

/-- The file of an expansion with its text. -/
def Expansion.reading (expansion : Expansion) : Path × Text := (expansion.file, expansion.text)

/-- Whether an expansion took place in a history. -/
structure World.Expands (world : World) (plan : Plan) (history : History)
    (expansion : Expansion) : Prop where
  /-- It was over by then. -/
  within : expansion.later <+: history
  /-- The file was reported short of the bound before it was read. -/
  reported : ∃ depth, (expansion.file, depth) ∈ reports expansion.before ∧
    ∀ limit ∈ plan.maxDepth, depth < limit
  /-- Every reference in the text came to a finding, in the order of the text. -/
  extracted : expansion.findings.map Prod.fst = extract expansion.text
  /-- The findings are those of the history. -/
  examined : world.Examines plan.conventions (sought expansion.before) expansion.file
    (expansion.before ++ [.readText expansion.file (.ok expansion.text)]) expansion.findings
    expansion.later

/-- What the references of a file came to, by a ledger. -/
def findingsOf (ledger : List Expansion) (file : Path) : List (Text × Finding) :=
  (ledger.filter (·.file = file)).flatMap (·.findings)

/-- The books of a session account for findings in a file: they hold these and nothing else. -/
structure Session.Accounts (session : Session) (file : Path) (findings : List (Text × Finding)) :
    Prop where
  /-- The references recorded as packages. -/
  external : ∀ reference,
    reference ∈ session.graph.external.get file ↔ (reference, .external) ∈ findings
  /-- The references recorded as leading to no file. -/
  missing : ∀ reference,
    reference ∈ session.graph.missing.get file ↔ (reference, .missing) ∈ findings
  /-- The files recorded as imports. -/
  targets : ∀ target,
    target ∈ session.graph.targets file ↔ ∃ reference, (reference, .leads target) ∈ findings
  /-- The references of which the session warned. -/
  warned : session.faults file = faultsOf findings

/-- The books of a session hold what a ledger of its history says. -/
structure World.Keeps (world : World) (plan : Plan) (session : Session) (history : History)
    (ledger : List Expansion) : Prop where
  /-- The ledger lists the texts read. -/
  texts_eq : texts history = ledger.map Expansion.reading
  /-- Its expansions took place. -/
  expands : ∀ expansion ∈ ledger, world.Expands plan history expansion
  /-- The graph holds the entries of the findings. -/
  holds : ∀ file entry, session.graph.Holds file entry ↔
    ∃ finding ∈ findingsOf ledger file, finding.2.record? finding.1 = some entry
  /-- The warnings are those of the findings. -/
  faults_eq : ∀ file, session.faults file = faultsOf (findingsOf ledger file)

/-- What a ledger gains while the references of one file come to findings. -/
structure World.Gains (world : World) (plan : Plan) (history later : History) (file : Path)
    (findings : List (Text × Finding)) (more : List Expansion) : Prop where
  /-- It gains the texts that were read. -/
  texts_eq : texts later = texts history ++ more.map Expansion.reading
  /-- Its new expansions took place. -/
  expands : ∀ expansion ∈ more, world.Expands plan later expansion
  /-- They have these findings in the file, and say nothing of others. -/
  findings_eq : ∀ source, findingsOf more source = if source = file then findings else []

section Histories

variable {history later : History}

/-- Where no root is sought, the one sought last stays. -/
theorem Passes.sought_eq (h : Passes Exchange.IsOnWay history later) :
    sought later = sought history := by
  refine congrArg (fun roots : List (Option Path) => roots.getLast?.join) ?_
  refine h.filterMap_eq fun exchange hway => ?_
  match exchange, hway with
  | .holds _ _, _ | .isFile _ _, _ | .readText _ _, _ | .told (.reached _ _), _ |
    .told (.unresolved _ _), _ | .told (.warned _), _ => rfl

/-- The root that was just sought is the last one. -/
theorem sought_append (history : History) (entry : Path) (root : Option Path) :
    sought (history ++ [.told (.rootSought entry root)]) = root := by
  rw [sought, List.filterMap_append]
  exact congrArg Option.join List.getLast?_concat

/-- Where no file is read, no text is. -/
theorem Passes.texts_eq (h : Passes Exchange.IsSilent history later) :
    texts later = texts history := by
  refine h.filterMap_eq fun exchange hsilent => ?_
  match exchange, hsilent with
  | .holds _ _, _ | .isFile _ _, _ | .told _, _ => rfl

/-- What is told brings no text. -/
theorem texts_told (history : History) (event : Event) :
    texts (history ++ [.told event]) = texts history := by
  rw [texts, List.filterMap_append]
  exact List.append_nil _

/-- A report brings no text. -/
theorem texts_reported (history : History) (file : Path) (depth : Nat) :
    texts (reported history file depth) = texts history := by
  have hasked : Passes Exchange.IsSilent history (history ++ [.isFile file (.ok true)]) :=
    Passes.one history trivial
  exact (texts_told _ _).trans hasked.texts_eq

/-- A file that was reported is among the reports. -/
theorem mem_reports_reported (history : History) (file : Path) (depth : Nat) :
    (file, depth) ∈ reports (reported history file depth) := by
  rw [reports, reported, List.filterMap_append]
  exact List.mem_append_right _ List.mem_cons_self

/-- The files whose texts were read are among the files read. -/
theorem texts_sublist_reads (history : History) :
    ((texts history).map Prod.fst).Sublist (reads history) := by
  induction history with
  | nil => exact List.Sublist.refl []
  | cons exchange history ih =>
    match exchange with
    | .readText file (.ok text) => exact ih.cons_cons file
    | .readText file (.error fault) => exact ih.cons file
    | .holds _ _ | .isFile _ _ | .told _ => exact ih

end Histories

/-- What two ledgers say of a file comes one after the other. -/
theorem findingsOf_append (ledger more : List Expansion) (file : Path) :
    findingsOf (ledger ++ more) file = findingsOf ledger file ++ findingsOf more file := by
  rw [findingsOf, List.filter_append, List.flatMap_append]
  rfl

/-- An expansion says nothing of other files. -/
theorem findingsOf_singleton (expansion : Expansion) (file : Path) :
    findingsOf [expansion] file =
      if file = expansion.file then expansion.findings else [] := by
  rw [findingsOf, List.filter_singleton]
  by_cases h : expansion.file = file
  · rw [if_pos h.symm, decide_eq_true h]
    exact List.append_nil _
  · rw [if_neg fun he => h he.symm, decide_eq_false h]
    rfl

/-- If no two members of a list have the same key, the key of a member finds it alone. -/
theorem filter_key_eq_singleton {α β : Type} [DecidableEq β] {key : α → β} {members : List α}
    (hnodup : (members.map key).Nodup) {member : α} (hmem : member ∈ members) :
    members.filter (key · = key member) = [member] := by
  obtain ⟨before, after, rfl⟩ := List.append_of_mem hmem
  rw [List.map_append, List.map_cons, List.nodup_middle, List.nodup_cons, ← List.map_append]
    at hnodup
  have hnone : ∀ other ∈ before ++ after, ¬ decide (key other = key member) = true :=
    fun other hother he => hnodup.1 (of_decide_eq_true he ▸ List.mem_map_of_mem hother)
  obtain ⟨hbefore, hafter⟩ := List.forall_mem_append.mp hnone
  rw [List.filter_append, List.filter_cons, if_pos (decide_eq_true rfl),
    List.filter_eq_nil_iff.mpr hbefore, List.filter_eq_nil_iff.mpr hafter, List.nil_append]

/-- The only expansion of a file says all that the ledger says of it. -/
theorem findingsOf_of_mem {ledger : List Expansion} (hnodup : (ledger.map (·.file)).Nodup)
    {expansion : Expansion} (hmem : expansion ∈ ledger) :
    findingsOf ledger expansion.file = expansion.findings := by
  rw [findingsOf, filter_key_eq_singleton hnodup hmem]
  exact List.append_nil _

/-- A ledger says nothing of a file that it does not list. -/
theorem findingsOf_of_not_mem {ledger : List Expansion} {file : Path}
    (h : file ∉ ledger.map (·.file)) : findingsOf ledger file = [] := by
  have hnone : ledger.filter (·.file = file) = [] := by
    refine List.filter_eq_nil_iff.mpr fun expansion hmem he => h ?_
    rw [← of_decide_eq_true he]
    exact List.mem_map_of_mem hmem
  rw [findingsOf, hnone]
  rfl

section Keeping

variable {world : World} {plan : Plan} {session next : Session} {history later : History}
  {ledger : List Expansion}

/-- What took place in a history took place in every longer one. -/
theorem World.Expands.mono {expansion : Expansion} (h : world.Expands plan history expansion)
    (hgrown : history <+: later) : world.Expands plan later expansion where
  within := h.within.trans hgrown
  reported := h.reported
  extracted := h.extracted
  examined := h.examined

/-- Where no text is read and the books stay, the ledger stays. -/
theorem World.Keeps.still (h : world.Keeps plan session history ledger)
    (hgrown : history <+: later) (htexts : texts later = texts history)
    (hholds : ∀ file entry, next.graph.Holds file entry ↔ session.graph.Holds file entry)
    (hfaults : ∀ file, next.faults file = session.faults file) :
    world.Keeps plan next later ledger where
  texts_eq := htexts.trans h.texts_eq
  expands expansion hmem := (h.expands expansion hmem).mono hgrown
  holds file entry := (hholds file entry).trans (h.holds file entry)
  faults_eq file := (hfaults file).trans (h.faults_eq file)

/-- Where no text is read, a ledger gains nothing. -/
theorem World.Gains.nothing (htexts : texts later = texts history) (file : Path) :
    world.Gains plan history later file [] [] where
  texts_eq := htexts.trans (List.append_nil _).symm
  expands := nofun
  findings_eq _ := (ite_self []).symm

/-- A file from the queue is expanded or not, and all that it came to is in the expansion. -/
theorem World.Meets.exists_gains {file : Path} {depth : Nat} {sight : Sight}
    (h : world.Meets plan (sought history) file depth history sight later) :
    ∃ more, world.Gains plan history later file sight.findings more := by
  have hasked : ∀ answer, Passes Exchange.IsSilent history (history ++ [.isFile file answer]) :=
    fun _ => Passes.one history trivial
  have hreported := texts_reported history file depth
  cases h with
  | barred _ => exact ⟨[], .nothing ((texts_told _ _).trans (hasked _).texts_eq) file⟩
  | gone _ => exact ⟨[], .nothing (hasked _).texts_eq file⟩
  | atBound _ _ => exact ⟨[], .nothing hreported file⟩
  | @unread fault _ _ _ =>
    have hread : texts (reported history file depth ++ [.readText file (.error fault)]) =
        texts history := by
      rw [texts, List.filterMap_append]
      exact (List.append_nil _).trans hreported
    exact ⟨[], .nothing ((texts_told _ _).trans hread) file⟩
  | @read text findings _ _ hbound _ hfst hexamines =>
    have hway : Passes Exchange.IsOnWay history (reported history file depth) :=
      (Passes.one history trivial).trans (Passes.one _ trivial)
    refine ⟨[⟨file, text, reported history file depth, findings, later⟩], ?_, ?_, ?_⟩
    · rw [hexamines.passes.texts_eq, texts, List.filterMap_append]
      exact congrArg (· ++ [(file, text)]) hreported
    · intro expansion hexpansion
      rw [List.mem_singleton.mp hexpansion]
      exact ⟨List.prefix_refl later, ⟨depth, mem_reports_reported history file depth,
        within_succ hbound⟩, hfst, hway.sought_eq.symm ▸ hexamines⟩
    · exact findingsOf_singleton _

/-- A step writes into the ledger what it writes into the books. -/
theorem World.Keeps.after {search : Search} {file : Path} {depth : Nat} {sight : Sight}
    (h : world.Keeps plan search.session history ledger)
    (hmeets : world.Meets plan (sought history) file depth history sight later) :
    ∃ ledger, world.Keeps plan (search.after file depth sight).session later ledger := by
  obtain ⟨more, hgains⟩ := hmeets.exists_gains
  refine ⟨ledger ++ more, ?_, ?_, ?_, ?_⟩
  · rw [hgains.texts_eq, h.texts_eq, List.map_append]
  · intro expansion hmem
    rcases List.mem_append.mp hmem with hmem | hmem
    · exact (h.expands expansion hmem).mono hmeets.passes.isPrefix
    · exact hgains.expands expansion hmem
  · intro source entry
    rw [after_holds, h.holds, findingsOf_append, hgains.findings_eq]
    by_cases hs : source = file
    · simp only [hs, true_and, if_true, List.mem_append, or_and_right, exists_or]
    · simp only [hs, false_and, or_false, if_false, List.append_nil]
  · intro source
    rw [after_faults, h.faults_eq, findingsOf_append, hgains.findings_eq, faultsOf_append]
    by_cases hs : source = file
    · rw [if_pos hs, if_pos hs]
    · rw [if_neg hs, if_neg hs]
      rfl

/-- A run writes into the ledger what it writes into the books. -/
theorem World.Keeps.proceeds {search final : Search} {steps : List Step}
    {root : Option Path} (hroot : sought history = root)
    (h : world.Keeps plan search.session history ledger)
    (hproceeds : world.Proceeds plan root search history steps final later) :
    ∃ ledger, world.Keeps plan final.session later ledger := by
  induction hproceeds generalizing ledger with
  | rest search history => exact ⟨ledger, h⟩
  | @take search _ history _ _ _ _ queue _ _ _ hmeets _ ih =>
    have hqueue : world.Keeps plan { search with queue }.session history ledger := h
    rw [← hroot] at hmeets
    obtain ⟨ledger, hledger⟩ := hqueue.after hmeets
    exact ih (hmeets.passes.sought_eq.trans hroot) hledger

/-- A warning about an entry is about no reference. -/
theorem Warning.IsOfEntry.fault?_eq_none {entry : Text} {warning : Warning}
    (h : warning.IsOfEntry entry) (file : Path) : warning.fault? file = none := by
  cases warning with
  | entryFault _ _ => rfl
  | entryMissing _ => rfl
  | entryNoFile _ => rfl
  | fileFault _ _ => rfl
  | readFault _ _ => rfl
  | referenceFault _ _ _ => exact h.elim

/-- A call writes into the ledger what it writes into the books. -/
theorem World.Keeps.serves {entry : Text} {answer : Except Trouble (List Path)}
    {steps : List Step} (h : world.Keeps plan session history ledger)
    (hserves : world.Serves plan entry session history answer next steps later) :
    ∃ ledger, world.Keeps plan next later ledger := by
  have hasked := admitted_passes history (world.place entry)
  have hsought := world.findRoot_passes plan.conventions (world.place entry)
    (admitted history (world.place entry))
  cases hserves with
  | @refused between warning _ hwarning hpasses =>
    refine ⟨ledger, h.still (hpasses.isPrefix.trans (List.prefix_append _ _))
      ((texts_told _ _).trans hpasses.texts_eq) (fun _ _ => Iff.rfl) fun file => ?_⟩
    rw [faults_warned, hwarning.fault?_eq_none]
    exact List.append_nil _
  | known _ _ =>
    exact ⟨ledger, h.still hasked.isPrefix hasked.texts_eq (fun _ _ => Iff.rfl) fun _ => rfl⟩
  | rootless _ _ hroot =>
    rw [hroot] at hsought
    have hall := hasked.trans hsought
    exact ⟨ledger, h.still hall.isPrefix hall.texts_eq (fun _ _ => Iff.rfl) fun _ => rfl⟩
  | @searched root asked _ _ _ _ _ hroot hproceeds _ =>
    rw [hroot] at hsought
    have hall := hasked.trans hsought
    have hstart : world.Keeps plan (Search.start session (world.place entry)).session
        (asked ++ [.told (.rootSought (world.place entry) root)]) ledger :=
      h.still (hall.isPrefix.trans (List.prefix_append _ _))
        ((texts_told _ _).trans hall.texts_eq) (fun _ _ => Graph.holds_addNode) fun _ => rfl
    exact World.Keeps.proceeds (sought_append asked (world.place entry) root) hstart hproceeds

/-- Every session has a ledger. -/
theorem Reached.exists_ledger {lists : List (List Path)}
    (h : Reached world plan lists session history) :
    ∃ ledger, world.Keeps plan session history ledger := by
  induction h with
  | fresh =>
    refine ⟨[], rfl, nofun, fun file entry => ?_, fun file => rfl⟩
    exact iff_of_false Graph.not_holds_empty fun ⟨_, hmem, _⟩ => List.not_mem_nil hmem
  | @step lists session later history after entry answer hbefore hrun ih =>
    obtain ⟨ledger, hledger⟩ := ih
    obtain ⟨answer', later', steps, after', hserves, hrun'⟩ :=
      follow_serves world plan hbefore.invariant.1 entry history
    rw [hrun] at hrun'
    cases hrun'
    exact hledger.serves hserves

/-- The books account for what the ledger says of a file. -/
theorem World.Keeps.accounts (h : world.Keeps plan session history ledger) (file : Path) :
    session.Accounts file (findingsOf ledger file) where
  external reference := by
    refine (h.holds file (.external reference)).trans ⟨?_, fun hmem => ⟨_, hmem, rfl⟩⟩
    rintro ⟨⟨other, _ | _ | _ | _⟩, hmem, hrecord⟩ <;> cases hrecord
    exact hmem
  missing reference := by
    refine (h.holds file (.missing reference)).trans ⟨?_, fun hmem => ⟨_, hmem, rfl⟩⟩
    rintro ⟨⟨other, _ | _ | _ | _⟩, hmem, hrecord⟩ <;> cases hrecord
    exact hmem
  targets target := by
    refine (h.holds file (.target target)).trans ⟨?_, fun ⟨_, hmem⟩ => ⟨_, hmem, rfl⟩⟩
    rintro ⟨⟨reference, _ | _ | _ | _⟩, hmem, hrecord⟩ <;> cases hrecord
    exact ⟨reference, hmem⟩
  warned := h.faults_eq file

/-- No file is in the ledger twice. -/
theorem World.Keeps.nodup (h : world.Keeps plan session history ledger)
    (hreads : (reads history).Nodup) : (ledger.map (·.file)).Nodup := by
  have hnodup := (texts_sublist_reads history).nodup hreads
  rw [h.texts_eq, List.map_map] at hnodup
  exact hnodup

end Keeping

section Resolvers

variable {m : Type → Type} [Monad m]

/-- Accounts for the references of a file as `expand` does, but resolves them in a given way. -/
def expandBy (around : Surroundings m) (conventions : Conventions) (file : Path)
    (resolver : Text → m (Except Trouble (Option Path))) :
    (references : List Text) → (children : List Path) → Session →
    m (Except Misuse (List Path) × Session)
  | [], children, session => pure (.ok children, session)
  | reference :: references, children, session => do
    if !isLocal conventions reference then
      expandBy around conventions file resolver references children
        { session with graph := session.graph.addExternal file reference }
    else
      match ← resolver reference with
      | .error (.misuse cause) => return (.error cause, session)
      | .error (.files fault) =>
        let session ← warn around (.referenceFault reference file fault) session
        expandBy around conventions file resolver references children session
      | .ok none =>
        around.tell (.unresolved reference file)
        expandBy around conventions file resolver references children
          { session with graph := session.graph.addMissing file reference }
      | .ok (some target) =>
        expandBy around conventions file resolver references
          (if target ∈ session.visited ∨ target ∈ children then children
            else children ++ [target])
          { session with graph := session.graph.addEdge file target }

/-- Only the local references of a file are resolved: what a resolver says of others does not
matter. -/
theorem expandBy_eq_of_mem {around : Surroundings m} {conventions : Conventions}
    {root : Option Path} {file : Path} {resolver : Text → m (Except Trouble (Option Path))}
    {references : List Text}
    (h : ∀ reference ∈ references, isLocal conventions reference = true → resolver reference =
      (resolve conventions around.isFile around.cwd reference file.toText root).run)
    (children : List Path) (session : Session) :
    expandBy around conventions file resolver references children session =
      expand around conventions root file references children session := by
  induction references generalizing children session with
  | nil => rfl
  | cons reference references ih =>
    obtain ⟨hreference, hreferences⟩ := List.forall_mem_cons.mp h
    have hlater := ih hreferences
    rw [expandBy, expand]
    cases hlocal : isLocal conventions reference with
    | false => exact hlater _ _
    | true =>
      rw [hreference hlocal]
      refine bind_congr fun answer => ?_
      obtain (cause | fault) | _ | target := answer
      · rfl
      · exact bind_congr fun warned => hlater children warned
      · exact bind_congr fun _ => hlater children _
      · exact hlater _ _

/-- Only local references are resolved: what a resolver says of the others does not matter. -/
theorem expandBy_eq {around : Surroundings m} {conventions : Conventions} {root : Option Path}
    {file : Path} {resolver : Text → m (Except Trouble (Option Path))}
    (h : ∀ reference, isLocal conventions reference = true → resolver reference =
      (resolve conventions around.isFile around.cwd reference file.toText root).run)
    (references : List Text) (children : List Path) (session : Session) :
    expandBy around conventions file resolver references children session =
      expand around conventions root file references children session :=
  expandBy_eq_of_mem (fun reference _ => h reference) children session

end Resolvers

section Findings

variable {findings : List (Text × Finding)}

/-- The references of the faults are among those of the findings. -/
theorem faultsOf_sublist (findings : List (Text × Finding)) :
    ((faultsOf findings).map Prod.fst).Sublist (findings.map Prod.fst) := by
  induction findings with
  | nil => exact List.Sublist.refl []
  | cons finding findings ih =>
    obtain ⟨reference, _ | fault | _ | target⟩ := finding
    · exact ih.cons reference
    · exact ih.cons_cons reference
    · exact ih.cons reference
    · exact ih.cons reference

/-- If no reference is listed twice, a fault is the only one of its reference. -/
theorem faultsOf_filter (hnodup : (findings.map Prod.fst).Nodup) {reference : Text}
    {fault : Files.Fault} (hmem : (reference, .faulty fault) ∈ findings) :
    (faultsOf findings).filter (·.1 = reference) = [(reference, fault)] := by
  have hfault : (reference, fault) ∈ faultsOf findings := List.mem_filterMap.mpr ⟨_, hmem, rfl⟩
  exact filter_key_eq_singleton ((faultsOf_sublist findings).nodup hnodup) hfault

/-- If no reference is listed twice, each listed one came to one finding. -/
theorem existsUnique_finding (hnodup : (findings.map Prod.fst).Nodup) {reference : Text}
    (hmem : reference ∈ findings.map Prod.fst) : ∃! finding, (reference, finding) ∈ findings := by
  obtain ⟨⟨_, finding⟩, hfinding, rfl⟩ := List.mem_map.mp hmem
  refine ⟨finding, hfinding, fun other hother => ?_⟩
  exact congrArg Prod.snd (List.inj_on_of_nodup_map hnodup hother hfinding rfl)

end Findings

/-- A file was expanded: it was reported short of the bound, and its text was read. -/
structure Expanded (plan : Plan) (history : History) (file : Path) (text : Text) : Prop where
  /-- It was reported short of the bound. -/
  reported : ∃ depth, (file, depth) ∈ reports history ∧ ∀ limit ∈ plan.maxDepth, depth < limit
  /-- Its text was read. -/
  read : (file, text) ∈ texts history

/-- In every state that a session comes to, each reference of a file that was expanded came to one
finding, at the time when it was examined. The books hold for the file what these findings are,
with one warning for each fault, and nothing else. For a file that was not expanded they hold
nothing. Only local references are resolved: without the others the history is the same, and
whatever a resolver says of them makes no difference. -/
theorem Reached.references_accounted {world : World} {plan : Plan} {lists : List (List Path)}
    {session : Session} {history : History} (h : Reached world plan lists session history) :
    (reports history).map Prod.fst = lists.flatten ∧
      (∀ file text, Expanded plan history file text →
        ∃ before findings later, later <+: history ∧
          findings.map Prod.fst = extract text ∧
          world.Examines plan.conventions (sought before) file
            (before ++ [.readText file (.ok text)]) findings later ∧
          world.Examines plan.conventions (sought before) file
            (before ++ [.readText file (.ok text)])
            (findings.filter fun finding => isLocal plan.conventions finding.1) later ∧
          (∀ reference ∈ extract text, ∃! finding, (reference, finding) ∈ findings) ∧
          session.Accounts file findings ∧
          ∀ reference fault, (reference, .faulty fault) ∈ findings →
            (session.faults file).filter (·.1 = reference) = [(reference, fault)]) ∧
      (∀ file, (∀ text, ¬ Expanded plan history file text) →
        session.graph.targets file = [] ∧ session.graph.missing.get file = [] ∧
          session.graph.external.get file = [] ∧ session.faults file = []) ∧
      ∀ (root : Option Path) (file : Path)
        (resolver : Text → StateM History (Except Trouble (Option Path))),
        (∀ reference, isLocal plan.conventions reference = true → resolver reference =
          (resolve plan.conventions world.surroundings.isFile world.cwd reference file.toText
            root).run) →
        ∀ references children before,
          expandBy world.surroundings plan.conventions file resolver references children before =
            expand world.surroundings plan.conventions root file references children before := by
  obtain ⟨halign, -, hreads⟩ := h.invariant
  obtain ⟨ledger, hledger⟩ := h.exists_ledger
  refine ⟨h.reports_eq, ?_, ?_, fun root file resolver => expandBy_eq⟩
  · intro file text hexpanded
    have hread := hexpanded.read
    rw [hledger.texts_eq] at hread
    obtain ⟨expansion, hmem, heq⟩ := List.mem_map.mp hread
    cases heq
    have haccounts := hledger.accounts expansion.file
    rw [findingsOf_of_mem (hledger.nodup (hreads.nodup halign.nodup)) hmem] at haccounts
    obtain ⟨hwithin, -, hextracted, hexamined⟩ := hledger.expands expansion hmem
    have hnodup : (expansion.findings.map Prod.fst).Nodup := hextracted ▸ nodup_eraseDups _
    refine ⟨expansion.before, expansion.findings, expansion.later, hwithin, hextracted, hexamined,
      hexamined.filter_isLocal, ?_, haccounts, ?_⟩
    · intro reference hreference
      exact existsUnique_finding hnodup (hextracted ▸ hreference)
    · intro reference fault hfault
      rw [haccounts.warned]
      exact faultsOf_filter hnodup hfault
  · intro file hnone
    have hfile : file ∉ ledger.map (·.file) := by
      intro hmem
      obtain ⟨expansion, hexpansion, rfl⟩ := List.mem_map.mp hmem
      obtain ⟨hwithin, ⟨depth, hreport, hshort⟩, -, hexamined⟩ :=
        hledger.expands expansion hexpansion
      refine hnone expansion.text ⟨⟨depth, ?_, hshort⟩, ?_⟩
      · have hgrown := (List.prefix_append _ _).trans (hexamined.passes.isPrefix.trans hwithin)
        exact (hgrown.filterMap _).subset hreport
      · rw [hledger.texts_eq]
        exact List.mem_map.mpr ⟨expansion, hexpansion, rfl⟩
    have haccounts := hledger.accounts file
    rw [findingsOf_of_not_mem hfile] at haccounts
    refine ⟨?_, ?_, ?_, haccounts.warned⟩
    · refine List.eq_nil_iff_forall_not_mem.mpr fun target hmem => ?_
      obtain ⟨reference, hfinding⟩ := (haccounts.targets target).mp hmem
      exact List.not_mem_nil hfinding
    · refine List.eq_nil_iff_forall_not_mem.mpr fun reference hmem => ?_
      exact List.not_mem_nil ((haccounts.missing reference).mp hmem)
    · refine List.eq_nil_iff_forall_not_mem.mpr fun reference hmem => ?_
      exact List.not_mem_nil ((haccounts.external reference).mp hmem)

/-- A text with references of all four kinds. -/
def assortedText : Text :=
  "import 'react';\nimport './b';\nimport './gone';\nimport './locked/c';".toList

/-- A disk with a file of this text, and with a directory whose entries cannot be reached. -/
def assorted : Disk := .ofTree
  { root := .directory .ofDirectory [("w".toList, .directory .ofDirectory
      [("a.js".toList, .file .ofFile (Utf8.encode assortedText)),
        ("b.js".toList, .file .ofFile []), ("locked".toList, .directory (.ofDigit 0) [])])]
    cwd := workplace }
  workplace_isNormal

/-- Each of its four references is accounted for in another way. -/
theorem references_accounted_assorted :
    ∃ lists session history findings, Reached assorted.world {} lists session history ∧
      Expanded {} history (assorted.place "a.js".toList) assortedText ∧
      findings.map Prod.fst = extract assortedText ∧
      session.Accounts (assorted.place "a.js".toList) findings ∧
      session.graph.external.get (assorted.place "a.js".toList) = ["react".toList] ∧
      session.graph.missing.get (assorted.place "a.js".toList) = ["./gone".toList] ∧
      session.graph.targets (assorted.place "a.js".toList) = [assorted.place "b.js".toList] ∧
      session.faults (assorted.place "a.js".toList) =
        [("./locked/c".toList, .failed .denied (assorted.place "locked/c".toList))] := by
  have hfresh : Reached assorted.world {} [] {} [] := .fresh
  obtain ⟨answer, session, history, hrun, hreached, -⟩ := hfresh.follow_run "a.js".toList
  have hcall : ∀ call, call = (follow assorted.world.surroundings {} "a.js".toList {}).run [] →
      ((assorted.place "a.js".toList, 0) ∈ reports call.2 ∧
        (assorted.place "a.js".toList, assortedText) ∈ texts call.2) ∧
      call.1.2.graph.external.get (assorted.place "a.js".toList) = ["react".toList] ∧
      call.1.2.graph.missing.get (assorted.place "a.js".toList) = ["./gone".toList] ∧
      call.1.2.graph.targets (assorted.place "a.js".toList) = [assorted.place "b.js".toList] ∧
      call.1.2.faults (assorted.place "a.js".toList) =
        [("./locked/c".toList, .failed .denied (assorted.place "locked/c".toList))] := by
    intro call h
    rw [h]
    decide +kernel
  obtain ⟨⟨hreport, htext⟩, hbooks⟩ := hcall ((answer, session), history) hrun.symm
  have hexpanded : Expanded {} history (assorted.place "a.js".toList) assortedText :=
    ⟨⟨0, hreport, nofun⟩, htext⟩
  obtain ⟨-, haccounted, -⟩ := hreached.references_accounted
  obtain ⟨_, findings, _, -, hfst, -, -, -, haccounts, -⟩ := haccounted _ _ hexpanded
  exact ⟨_, session, history, findings, hreached, hexpanded, hfst, haccounts, hbooks⟩

end SourceLoom.Traversal
