import SourceLoom.Proofs.Traversal.Disk
import SourceLoom.Proofs.Traversal.TreeDisk

/-!
# A larger bound on the depth

Two sweeps from one start whose bounds differ take the same steps until the next item is as deep
as the smaller bound allows. From then on all queued items are that deep: the sweep with the
smaller bound only empties its queue, and the other one puts everything new behind it. So a larger
bound adds items after those that a smaller one gives, and only such as are out of its reach.
-/

namespace SourceLoom.BreadthFirst

variable {α : Type} {next : α → List α} {small large : Option Nat}

/-- A bound allows no depth that another one does not allow. -/
def Tighter (small large : Option Nat) : Prop := ∀ limit ∈ large, ∃ least ∈ small, least ≤ limit

/-- Short of the smaller bound is short of the larger one. -/
theorem Tighter.short (h : Tighter small large) {depth : Nat}
    (hshort : small.any (· ≤ depth) = false) : large.any (· ≤ depth) = false := by
  cases large with
  | none => rfl
  | some limit =>
    obtain ⟨least, rfl, hle⟩ := h limit rfl
    have hdeep : ¬ least ≤ depth := of_decide_eq_false hshort
    exact decide_eq_false fun hlimit => hdeep (hle.trans hlimit)

namespace Sweep

/-- How a sweep with a smaller bound is behind one with a larger bound. -/
inductive Trails (small : Option Nat) (part full : Sweep α) : Prop
  /-- They are equally far. -/
  | level : part = full → Trails small part full
  /-- What is left to take is as deep as the smaller bound allows, and the other sweep begins with
  the same items. -/
  | behind : (∀ y ∈ part.queue, small.any (· ≤ y.2) = true) → part.items <+: full.items →
      Trails small part full

/-- The items of the first sweep are the first items of the second. -/
theorem Trails.items_prefix {part full : Sweep α} (h : Trails small part full) :
    part.items <+: full.items := by
  cases h with
  | level heq => rw [heq]
  | behind _ hitems => exact hitems

variable [DecidableEq α]

/-- A step only adds items at the end. -/
theorem items_prefix_step (next : α → List α) (bound : Option Nat) (s : Sweep α) :
    s.items <+: (s.step next bound).items := by
  cases hq : s.queue with
  | nil => rw [step_of_queue_nil hq]
  | cons head queue =>
    rw [step_items next bound hq]
    exact List.prefix_append ..

/-- A sweep whose next item is at the bound just takes it. -/
theorem step_at_bound {bound : Option Nat} {s : Sweep α} {x : α} {depth : Nat}
    {queue : List (α × Nat)} (hq : s.queue = (x, depth) :: queue)
    (h : bound.any (· ≤ depth) = true) (next : α → List α) :
    (s.step next bound).items = s.items ∧ (s.step next bound).queue = queue := by
  have hnone := offspring_at_bound h next x
  constructor
  · rw [step_items next bound hq, hnone]
    exact List.append_nil _
  · simp only [step, hq, hnone, fresh, List.map_nil, List.append_nil]

variable {around : List α} {x : α} {part full : Sweep α}

/-- Where both sweeps take one more step, the first stays behind the second. -/
theorem Trails.step (hle : Tighter small large) (hs : Sound next small around x part)
    (h : Trails small part full) :
    Trails small (part.step next small) (full.step next large) := by
  cases h with
  | level heq =>
    subst heq
    cases hq : part.queue with
    | nil =>
      rw [step_of_queue_nil hq, step_of_queue_nil hq]
      exact .level rfl
    | cons head queue =>
      obtain ⟨y, depth⟩ := head
      cases hshort : small.any (· ≤ depth) with
      | false =>
        refine .level ?_
        simp only [Sweep.step, hq, offspring_short hshort, offspring_short (hle.short hshort)]
      | true =>
        -- The first item at the bound: all that are queued behind it are at least as deep.
        obtain ⟨hitems, hqueue⟩ := step_at_bound hq hshort next
        have hsorted := (List.pairwise_append.mp hs.sorted).2.1
        rw [hq] at hsorted
        refine .behind ?_ (hitems ▸ items_prefix_step next large part)
        intro z hz
        rw [hqueue] at hz
        obtain ⟨limit, hlimit, hreached⟩ := Option.any_eq_true .. |>.mp hshort
        have hdeeper : depth ≤ z.2 := List.rel_of_pairwise_cons hsorted hz
        rw [decide_eq_true_eq] at hreached
        exact Option.any_eq_true .. |>.mpr ⟨limit, hlimit, decide_eq_true (hreached.trans hdeeper)⟩
  | behind hdeep hitems =>
    have hgrown := hitems.trans (items_prefix_step next large full)
    cases hq : part.queue with
    | nil =>
      rw [step_of_queue_nil hq]
      exact .behind hdeep hgrown
    | cons head queue =>
      obtain ⟨y, depth⟩ := head
      rw [hq] at hdeep
      obtain ⟨hsame, hqueue⟩ := step_at_bound hq (hdeep (y, depth) List.mem_cons_self) next
      refine .behind ?_ (hsame ▸ hgrown)
      intro z hz
      rw [hqueue] at hz
      exact hdeep z (List.mem_cons_of_mem _ hz)

/-- After any number of steps of both, the first sweep is behind the second. -/
theorem Trails.iterate (hle : Tighter small large) (hs : Sound next small around x part)
    (h : Trails small part full) (n : Nat) :
    Trails small ((Sweep.step next small)^[n] part) ((Sweep.step next large)^[n] full) := by
  induction n generalizing part full with
  | zero => exact h
  | succ n ih =>
    rw [Function.iterate_succ_apply, Function.iterate_succ_apply]
    exact ih hs.step (h.step hle hs)

end Sweep

end SourceLoom.BreadthFirst

namespace SourceLoom.Traversal

open Reference BreadthFirst

namespace Disk

variable {disk : Disk} {conventions : Conventions} {small large : Option Nat}

/-- A sweep along the imports with a larger bound goes on where the other one ends, with files that
are out of its reach. -/
theorem Ready.exists_deeper {root : Option Path} {around : List Path} {x : Path}
    (hready : disk.Ready root around x) (hle : Tighter small large) :
    ∃ deeper, (disk.sweep { maxDepth := large, conventions } root around x).taken =
        (disk.sweep { maxDepth := small, conventions } root around x).taken ++ deeper ∧
      ∀ report ∈ deeper, ¬ Within small report.2 := by
  have hstart := Sweep.start_sound (disk.imports conventions root) small hready.nodup hready.not_mem
  have htrails := (Sweep.Trails.level rfl).iterate hle hstart disk.fileCount
  have hprefix : (disk.sweep { maxDepth := small, conventions } root around x).items <+:
      (disk.sweep { maxDepth := large, conventions } root around x).items := htrails.items_prefix
  rw [hready.items_eq, hready.items_eq] at hprefix
  obtain ⟨deeper, hdeeper⟩ := hprefix
  refine ⟨deeper, hdeeper.symm, ?_⟩
  rintro ⟨file, depth⟩ hmem hwithin
  -- A file within the smaller bound has the same distance in both sweeps, so it came before.
  have hlarge : (file, depth) ∈
      (disk.sweep { maxDepth := large, conventions } root around x).taken := by
    rw [← hdeeper]
    exact List.mem_append_right _ hmem
  have hleast := ((hready.mem_taken_iff _ file depth).mp hlarge).2
  have hsmall := (hready.mem_taken_iff { maxDepth := small, conventions } file depth).mpr
    ⟨hwithin, hleast⟩
  have hnodup := (hready.sound { maxDepth := large, conventions }).items_nodup.1
  rw [hready.items_eq, ← hdeeper, List.map_append, List.nodup_append] at hnodup
  exact hnodup.2.2 file (List.mem_map_of_mem hsmall) file (List.mem_map_of_mem hmem) rfl

/-- What a fresh session finds from an entry that it follows, each file with its distance, or why
the root of the project cannot be sought. -/
def found (disk : Disk) (plan : Plan) (entry : Text) : Except Files.Fault (List (Path × Nat)) :=
  if disk.isFile (disk.place entry) = .ok true then
    (disk.rootOf plan.conventions (disk.place entry)).map fun root =>
      (disk.sweep plan root [] (disk.place entry)).taken
  else .ok []

/-- A fresh session that follows an entry gives and reports what it finds, and the graph has the
same depths. -/
theorem follow_fresh (disk : Disk) (plan : Plan) (entry : Text) (history : History) :
    ∃ later after, (follow disk.surroundings plan entry {}).run history =
        ((((disk.found plan entry).map (·.map Prod.fst)).mapError Trouble.files, later), after) ∧
      reports after = reports history ++ (disk.found plan entry).toOption.toList.flatten ∧
      ∀ report ∈ (disk.found plan entry).toOption.toList.flatten,
        later.graph.depth? report.1 = some (report.2 : Int) := by
  obtain ⟨answer, later, reached, read, after, hfollows, halign, hadds, hrun⟩ :=
    disk.follow_run plan Session.aligned_fresh entry history
  refine ⟨later, after, ?_⟩
  cases hfollows with
  | skipped hskip _ _ =>
    have hfound : disk.found plan entry = .ok [] :=
      if_neg (hskip.resolve_right List.not_mem_nil)
    rw [hfound]
    exact ⟨hrun, hadds.reports_eq, nofun⟩
  | rootless hfile _ hroot =>
    rw [found, if_pos hfile, hroot]
    exact ⟨hrun, hadds.reports_eq, nofun⟩
  | searched hfile _ hroot _ hnodes =>
    have hfiles : later.graph.files.Nodup := halign.visited_eq ▸ halign.nodup
    rw [found, if_pos hfile, hroot]
    simp only [Except.map, flatten_toOption_ok]
    refine ⟨hrun, hadds.reports_eq, ?_⟩
    intro report htaken
    rw [Graph.depth?_eq_some_iff hfiles, hnodes]
    exact List.mem_append_right _ (List.mem_map.mpr ⟨report, htaken, rfl⟩)

/-- A fresh session fails only if the root of the project of a regular file cannot be sought. -/
theorem found_eq_error_iff {plan : Plan} {entry : Text} {fault : Files.Fault} :
    disk.found plan entry = .error fault ↔ disk.isFile (disk.place entry) = .ok true ∧
      disk.rootOf plan.conventions (disk.place entry) = .error fault := by
  unfold found
  split
  · rename_i hfile
    cases disk.rootOf plan.conventions (disk.place entry) with
    | error cause =>
      simp only [Except.map, Except.error.injEq]
      exact ⟨fun h => ⟨hfile, h⟩, fun h => h.2⟩
    | ok root => exact ⟨nofun, fun h => nomatch h.2⟩
  · rename_i hfile
    exact ⟨nofun, fun h => absurd h.1 hfile⟩

/-- With a larger bound a fresh session finds more, behind all that it finds with a smaller one and
out of the reach of that. -/
theorem exists_found_deeper (disk : Disk) (conventions : Conventions)
    (hle : Tighter small large) (entry : Text) :
    ∃ deeper, disk.found { maxDepth := large, conventions } entry =
        (disk.found { maxDepth := small, conventions } entry).map (· ++ deeper) ∧
      ∀ report ∈ deeper, ¬ Within small report.2 := by
  unfold found
  by_cases hfile : disk.isFile (disk.place entry) = .ok true
  · rw [if_pos hfile, if_pos hfile]
    cases hroot : disk.rootOf conventions (disk.place entry) with
    | error fault => exact ⟨[], rfl, nofun⟩
    | ok root =>
      have hready := ready_place List.nodup_nil List.not_mem_nil hfile hroot
      obtain ⟨deeper, htaken, hbeyond⟩ := hready.exists_deeper hle
      exact ⟨deeper, congrArg Except.ok htaken, hbeyond⟩
  · rw [if_neg hfile, if_neg hfile]
    exact ⟨[], rfl, nofun⟩

/-- A larger bound on the depth only adds files at the end. A fresh session that follows an entry
gives with the larger bound the files that it gives with the smaller one, with the same depths in
its reports and its graph, and then files that are out of the reach of the smaller bound. It fails
only if the root of the project of a regular file cannot be sought, and then with either bound. -/
theorem follow_deepens (disk : Disk) (conventions : Conventions) (hle : Tighter small large)
    (entry : Text) (history other : History) :
    ∃ answer session later after final reached deeper,
      (follow disk.surroundings { maxDepth := small, conventions } entry {}).run history =
          ((answer, session), after) ∧
        (follow disk.surroundings { maxDepth := large, conventions } entry {}).run other =
          ((answer.map (· ++ deeper.map Prod.fst), later), final) ∧
        (∀ trouble, answer = .error trouble ↔ ∃ fault, trouble = .files fault ∧
          disk.isFile (disk.place entry) = .ok true ∧
            disk.rootOf conventions (disk.place entry) = .error fault) ∧
        reports after = reports history ++ reached ∧
        reports final = reports other ++ (reached ++ deeper) ∧
        reached.map Prod.fst = answer.toOption.toList.flatten ∧
        (∀ report ∈ reached, session.graph.depth? report.1 = some (report.2 : Int) ∧
          later.graph.depth? report.1 = some (report.2 : Int)) ∧
        ∀ report ∈ deeper, ¬ Within small report.2 := by
  obtain ⟨deeper, hlarge, hbeyond⟩ := disk.exists_found_deeper conventions hle entry
  obtain ⟨session, after, hrun, hreports, hdepths⟩ :=
    disk.follow_fresh { maxDepth := small, conventions } entry history
  obtain ⟨later, final, hlater, hfinal, hdeeper⟩ :=
    disk.follow_fresh { maxDepth := large, conventions } entry other
  rw [hlarge] at hlater hfinal hdeeper
  cases hsmall : disk.found { maxDepth := small, conventions } entry with
  | error fault =>
    rw [hsmall] at hrun hreports hlater hfinal
    obtain ⟨hfile, hroot⟩ := found_eq_error_iff.mp hsmall
    refine ⟨_, session, later, after, final, [], [], hrun, hlater, ?_, hreports, hfinal, rfl,
      nofun, nofun⟩
    intro trouble
    constructor
    · rintro ⟨⟩
      exact ⟨fault, rfl, hfile, hroot⟩
    · rintro ⟨cause, rfl, -, hcause⟩
      exact congrArg (Except.error ∘ Trouble.files) (Except.error.inj (hroot.symm.trans hcause))
  | ok reached =>
    rw [hsmall] at hrun hreports hdepths hlater hfinal hdeeper
    simp only [Except.map, flatten_toOption_ok] at hreports hdepths hlater hfinal hdeeper
    refine ⟨_, session, later, after, final, reached, deeper, hrun, ?_, ?_, hreports, hfinal, ?_,
      ?_, hbeyond⟩
    · rw [hlater, List.map_append]
      rfl
    · intro trouble
      refine ⟨nofun, ?_⟩
      rintro ⟨fault, -, hfile, hroot⟩
      cases hsmall.symm.trans (found_eq_error_iff.mpr ⟨hfile, hroot⟩)
    · exact (flatten_toOption_ok _).symm
    · intro report hmem
      exact ⟨hdepths report hmem, hdeeper report (List.mem_append_left _ hmem)⟩

end Disk

/-- With one import allowed the chain gives its first two files, and without a bound the third one
after them. -/
theorem follow_deepens_chain :
    ∃ answer session later after final deeper,
      (follow chain.surroundings { maxDepth := some 1 } "a.js".toList {}).run [] =
          ((answer, session), after) ∧
        (follow chain.surroundings {} "a.js".toList {}).run [] =
          ((answer.map (· ++ deeper.map Prod.fst), later), final) ∧
        answer = .ok [chain.place "a.js".toList, chain.place "b.js".toList] ∧
        deeper = [(chain.place "c.js".toList, 2)] := by
  have hle : Tighter (some 1) none := nofun
  obtain ⟨answer, session, later, after, final, reached, deeper, hrun, hlater, -, hreports, hfinal,
    -⟩ := chain.follow_deepens {} hle "a.js".toList [] []
  have hanswer : ((follow chain.surroundings { maxDepth := some 1 } "a.js".toList {}).run []).1.1 =
      .ok [chain.place "a.js".toList, chain.place "b.js".toList] := by decide +kernel
  have hfirst : reports ((follow chain.surroundings { maxDepth := some 1 } "a.js".toList {}).run
      []).2 = [(chain.place "a.js".toList, 0), (chain.place "b.js".toList, 1)] := by decide +kernel
  have hall : reports ((follow chain.surroundings {} "a.js".toList {}).run []).2 =
      [(chain.place "a.js".toList, 0), (chain.place "b.js".toList, 1),
        (chain.place "c.js".toList, 2)] := by decide +kernel
  rw [hrun] at hanswer hfirst
  rw [hlater] at hall
  have hreached : reached = [(chain.place "a.js".toList, 0), (chain.place "b.js".toList, 1)] :=
    hreports.symm.trans hfirst
  have hsplit := hfinal.symm.trans hall
  rw [hreached] at hsplit
  exact ⟨answer, session, later, after, final, deeper, hrun, hlater, hanswer,
    List.append_cancel_left hsplit⟩

end SourceLoom.Traversal
