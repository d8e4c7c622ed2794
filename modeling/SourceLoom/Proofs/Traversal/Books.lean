import SourceLoom.Proofs.Graph.Recording
import SourceLoom.Proofs.Traversal.Calls

/-!
# The books of a session

The books of a session are its graph and its warnings. A step writes into them just what the
references of the file that it read came to: an entry of that file for each reference that was
classified or resolved, and a warning for each that could not be. Nothing that was written is taken
back.
-/

namespace SourceLoom.Traversal

open Reference BreadthFirst

/-- What is recorded for a reference that came to a finding. -/
def Finding.record? (reference : Text) : Finding → Option Graph.Entry
  | external => some (.external reference)
  | faulty _ => none
  | missing => some (.missing reference)
  | leads target => some (.target target)

/-- The fault that a finding is. -/
def Finding.fault? : Finding → Option Files.Fault
  | faulty fault => some fault
  | _ => none

/-- The reference in a file that a warning is about, with its fault. -/
def Warning.fault? (file : Path) : Warning → Option (Text × Files.Fault)
  | referenceFault reference other fault => if other = file then some (reference, fault) else none
  | _ => none

/-- The references in a file of which a session warned, with their faults. -/
def Session.faults (session : Session) (file : Path) : List (Text × Files.Fault) :=
  session.warnings.filterMap (·.fault? file)

/-- The references whose findings are faults. -/
def faultsOf (findings : List (Text × Finding)) : List (Text × Files.Fault) :=
  findings.filterMap fun finding => finding.2.fault?.map (finding.1, ·)

/-- The faults of two parts come one after the other. -/
theorem faultsOf_append (findings more : List (Text × Finding)) :
    faultsOf (findings ++ more) = faultsOf findings ++ faultsOf more := List.filterMap_append

/-- What a file that was taken from the queue came to, reference by reference. -/
def Sight.findings : Sight → List (Text × Finding)
  | barred _ | gone | atBound | unread _ => []
  | read _ findings => findings

section Steps

variable {file source : Path} {entry : Graph.Entry}

/-- One warning more adds at most one fault. -/
theorem faults_warned (session : Session) (warning : Warning) :
    Session.faults { session with warnings := session.warnings ++ [warning] } source =
      session.faults source ++ (warning.fault? source).toList := by
  rw [Session.faults, List.filterMap_append]
  rfl

/-- Accounting for a finding records its entry for the file. -/
theorem account_one_holds (finding : Text × Finding) (children : List Path) (session : Session) :
    (account file [finding] children session).2.graph.Holds source entry ↔
      session.graph.Holds source entry ∨
        source = file ∧ finding.2.record? finding.1 = some entry := by
  obtain ⟨reference, _ | fault | _ | target⟩ := finding
  · refine Graph.holds_addExternal.trans (or_congr_right (and_congr_right fun _ => ?_))
    exact ⟨fun h => congrArg some h.symm, fun h => (Option.some.inj h).symm⟩
  · exact ⟨Or.inl, fun h => h.resolve_right fun h => nomatch h.2⟩
  · refine Graph.holds_addMissing.trans (or_congr_right (and_congr_right fun _ => ?_))
    exact ⟨fun h => congrArg some h.symm, fun h => (Option.some.inj h).symm⟩
  · refine Graph.holds_addEdge.trans (or_congr_right (and_congr_right fun _ => ?_))
    exact ⟨fun h => congrArg some h.symm, fun h => (Option.some.inj h).symm⟩

/-- Accounting for findings records their entries for the file, and nothing else. -/
theorem account_holds (findings : List (Text × Finding)) (children : List Path)
    (session : Session) :
    (account file findings children session).2.graph.Holds source entry ↔
      session.graph.Holds source entry ∨
        source = file ∧ ∃ finding ∈ findings, finding.2.record? finding.1 = some entry := by
  induction findings generalizing children session with
  | nil =>
    have hnone : ¬ ∃ finding ∈ ([] : List (Text × Finding)),
        finding.2.record? finding.1 = some entry := by
      rintro ⟨finding, hmem, -⟩
      exact List.not_mem_nil hmem
    exact ⟨Or.inl, fun h => h.resolve_right fun h => hnone h.2⟩
  | cons finding findings ih =>
    rw [account_cons, ih, account_one_holds, List.exists_mem_cons_iff, and_or_left, or_assoc]

/-- Accounting for a finding warns of its fault, if it is one. -/
theorem account_one_faults (finding : Text × Finding) (children : List Path) (session : Session) :
    (account file [finding] children session).2.faults source =
      session.faults source ++ if source = file then faultsOf [finding] else [] := by
  obtain ⟨reference, _ | fault | _ | target⟩ := finding
  · rw [show faultsOf [(reference, Finding.external)] = [] from rfl, ite_self]
    exact (List.append_nil _).symm
  · refine (faults_warned session (.referenceFault reference file fault)).trans ?_
    rw [Warning.fault?]
    by_cases h : file = source
    · rw [if_pos h, if_pos h.symm]
      rfl
    · rw [if_neg h, if_neg fun he => h he.symm]
      rfl
  · rw [show faultsOf [(reference, Finding.missing)] = [] from rfl, ite_self]
    exact (List.append_nil _).symm
  · rw [show faultsOf [(reference, Finding.leads target)] = [] from rfl, ite_self]
    exact (List.append_nil _).symm

/-- Accounting for findings warns of their faults, each once and in their order. -/
theorem account_faults (findings : List (Text × Finding)) (children : List Path)
    (session : Session) :
    (account file findings children session).2.faults source =
      session.faults source ++ if source = file then faultsOf findings else [] := by
  induction findings generalizing children session with
  | nil =>
    rw [show faultsOf [] = [] from rfl, ite_self]
    exact (List.append_nil _).symm
  | cons finding findings ih =>
    have hcons : faultsOf (finding :: findings) = faultsOf [finding] ++ faultsOf findings :=
      faultsOf_append [finding] findings
    rw [account_cons, ih, account_one_faults, hcons, List.append_assoc]
    congr 1
    by_cases h : source = file
    · rw [if_pos h, if_pos h, if_pos h]
    · rw [if_neg h, if_neg h, if_neg h]
      rfl

/-- Queueing files warns of nothing. -/
theorem enqueueAll_warnings (search : Search) (files : List Path) (depth : Nat) :
    (search.enqueueAll files depth).session.warnings = search.session.warnings := by
  induction files generalizing search with
  | nil => rfl
  | cons first files ih => exact ih (search.enqueue first depth)

/-- Queueing files records nothing but the files themselves. -/
theorem enqueueAll_holds (search : Search) (files : List Path) (depth : Nat) :
    (search.enqueueAll files depth).session.graph.Holds source entry ↔
      search.session.graph.Holds source entry := by
  induction files generalizing search with
  | nil => exact Iff.rfl
  | cons first files ih => exact (ih (search.enqueue first depth)).trans Graph.holds_addNode

/-- A step records the entries of what it found for its file, and nothing else. -/
theorem after_holds (search : Search) (depth : Nat) (sight : Sight) :
    (search.after file depth sight).session.graph.Holds source entry ↔
      search.session.graph.Holds source entry ∨
        source = file ∧ ∃ finding ∈ sight.findings, finding.2.record? finding.1 = some entry := by
  cases sight with
  | read text findings =>
    exact (enqueueAll_holds _ _ _).trans (account_holds findings [] search.session)
  | barred fault => simp [Search.after, Search.warned, Sight.findings]
  | gone => simp [Search.after, Sight.findings]
  | atBound => simp [Search.after, Search.keep, Sight.findings]
  | unread fault => simp [Search.after, Search.warned, Search.keep, Sight.findings]

/-- A step warns of the faults among what it found in its file, each once and in their order. -/
theorem after_faults (search : Search) (depth : Nat) (sight : Sight) :
    (search.after file depth sight).session.faults source =
      search.session.faults source ++ if source = file then faultsOf sight.findings else [] := by
  have hnone : (if source = file then faultsOf [] else []) = [] := ite_self []
  cases sight with
  | read text findings =>
    refine Eq.trans ?_ (account_faults findings [] search.session)
    exact congrArg (List.filterMap _) (enqueueAll_warnings _ _ _)
  | barred fault =>
    rw [Sight.findings, hnone]
    exact faults_warned search.session (.fileFault file fault)
  | gone =>
    rw [Sight.findings, hnone, List.append_nil]
    rfl
  | atBound =>
    rw [Sight.findings, hnone, List.append_nil]
    rfl
  | unread fault =>
    rw [Sight.findings, hnone]
    exact faults_warned search.session (.readFault file fault)

/-- The files that a step leads to are those that it records as imports. -/
theorem Sight.mem_targets {sight : Sight} {target : Path} :
    target ∈ sight.targets ↔
      ∃ finding ∈ sight.findings, finding.2.record? finding.1 = some (.target target) := by
  have hone : ∀ finding : Text × Finding, finding.2.target? = some target ↔
      finding.2.record? finding.1 = some (.target target) := by
    rintro ⟨reference, _ | fault | _ | other⟩
    · exact ⟨nofun, nofun⟩
    · exact ⟨nofun, nofun⟩
    · exact ⟨nofun, nofun⟩
    · simp [Finding.target?, Finding.record?]
  cases sight with
  | read text findings =>
    rw [Sight.targets, Traversal.targets, List.mem_filterMap]
    simp only [hone, Sight.findings]
  | barred fault => simp [Sight.targets, Sight.findings]
  | gone => simp [Sight.targets, Sight.findings]
  | atBound => simp [Sight.targets, Sight.findings]
  | unread fault => simp [Sight.targets, Sight.findings]

/-- A step records the files that it leads to as imports of its file. -/
theorem after_targets (search : Search) (depth : Nat) {sight : Sight} {target : Path}
    (h : target ∈ sight.targets) :
    target ∈ (search.after file depth sight).session.graph.targets file :=
  (after_holds search depth sight).mpr (Or.inr ⟨rfl, Sight.mem_targets.mp h⟩)

/-- A step keeps what is in the graph. -/
theorem after_grows {search : Search} (ha : search.Aligned) {depth : Nat}
    {queue : List (Path × Nat)} (hq : search.queue = (file, depth) :: queue) (sight : Sight) :
    search.session.graph.Grows ({ search with queue }.after file depth sight).session.graph := by
  have hd := ha.depth_eq (file, depth) (by rw [hq]; exact List.mem_cons_self)
  obtain ⟨-, -, -, hnodes⟩ := after_shape { search with queue } ha.visited_eq hd sight
  refine ⟨⟨_, hnodes.symm⟩, fun source entry hheld => ?_⟩
  exact (after_holds { search with queue } depth sight).mpr (Or.inl hheld)

end Steps

section Calls

variable {world : World} {plan : Plan} {root : Option Path} {history after : History}

/-- A run keeps what is in the graph. -/
theorem World.Proceeds.grows {search final : Search} {steps : List Step}
    (h : world.Proceeds plan root search history steps final after) (ha : search.Aligned) :
    search.session.graph.Grows final.session.graph := by
  induction h with
  | rest search history => exact Graph.Grows.refl _
  | take hq _ _ ih => exact (after_grows ha hq _).trans (ih (ha.after hq _))

/-- A call keeps what is in the graph. -/
theorem World.Serves.grows {entry : Text} {session later : Session}
    {answer : Except Trouble (List Path)} {steps : List Step}
    (h : world.Serves plan entry session history answer later steps after)
    (ha : session.Aligned) : session.graph.Grows later.graph := by
  cases h with
  | refused _ _ _ => exact Graph.Grows.refl _
  | known _ _ => exact Graph.Grows.refl _
  | rootless _ _ _ => exact Graph.Grows.refl _
  | searched _ hnew _ hproceeds _ =>
    have hstart := Graph.grows_addNode session.graph (world.place entry) 0
    exact hstart.trans (hproceeds.grows (ha.start hnew))

end Calls

end SourceLoom.Traversal
