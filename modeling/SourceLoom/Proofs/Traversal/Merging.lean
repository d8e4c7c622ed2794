import SourceLoom.Proofs.Traversal.Disk
import SourceLoom.Proofs.Traversal.TreeDisk

/-!
# Several entries

On a disk a session that follows several entries gives one list for each. The list of an entry
goes around the files that earlier entries gave: with a bound on the depth, this may lose files
that lie behind them. Without a bound nothing is lost, because the files given so far are closed
under imports.
-/

namespace SourceLoom.Traversal

open Reference BreadthFirst

namespace Disk

/-- The answer for several entries that a fresh session follows. -/
def followImports (disk : Disk) (plan : Plan) (entries : List Text) :
    Except Trouble (List Path) :=
  ((followAll disk.surroundings plan entries {}).run []).1.1

/-- Those of some entries that are regular files have one root. -/
def ShareRoot (disk : Disk) (conventions : Conventions) (root : Option Path)
    (entries : List Text) : Prop :=
  ∀ entry ∈ entries, disk.isFile (disk.place entry) = .ok true →
    disk.rootOf conventions (disk.place entry) = .ok root

variable (disk : Disk) (plan : Plan) (root : Option Path)

/-- The files that an entry gives after others were given. -/
def given (around : List Path) (entry : Text) : List Path :=
  if disk.isFile (disk.place entry) = .ok true ∧ disk.place entry ∉ around then
    (disk.sweep plan root around (disk.place entry)).taken.map Prod.fst
  else []

/-- The lists that several entries give, one after the other. -/
def lists : (around : List Path) → List Text → List (List Path)
  | _, [] => []
  | around, entry :: entries =>
    disk.given plan root around entry ::
      lists (around ++ disk.given plan root around entry) entries

/-- There is one list for each entry. -/
theorem lists_length (around : List Path) (entries : List Text) :
    (disk.lists plan root around entries).length = entries.length := by
  induction entries generalizing around with
  | nil => rfl
  | cons entry entries ih => exact congrArg (· + 1) (ih _)

variable {disk plan root}

/-- What the list of an entry goes around are the lists of the earlier ones. -/
theorem lists_getElem {around : List Path} {entries : List Text} {i : Nat}
    (h : i < entries.length) (h' : i < (disk.lists plan root around entries).length) :
    (disk.lists plan root around entries)[i] = disk.given plan root
      (around ++ ((disk.lists plan root around entries).take i).flatten) entries[i] := by
  induction entries generalizing around i with
  | nil => exact absurd h (Nat.not_lt_zero i)
  | cons entry entries ih =>
    cases i with
    | zero => simp only [lists, List.getElem_cons_zero, List.take_zero, List.flatten_nil,
        List.append_nil]
    | succ i =>
      simp only [lists, List.getElem_cons_succ, List.take_succ_cons, List.flatten_cons]
      rw [ih (Nat.lt_of_succ_lt_succ h), List.append_assoc]

/-- Following an entry on a disk gives its files, if its root is the shared one. -/
theorem follow_given {session : Session} {entry : Text} (ha : session.Aligned)
    (hroot : disk.isFile (disk.place entry) = .ok true →
      disk.rootOf plan.conventions (disk.place entry) = .ok root) (history : History) :
    ∃ later after, (follow disk.surroundings plan entry session).run history =
        ((.ok (disk.given plan root session.visited entry), later), after) ∧
      later.Aligned ∧
      later.visited = session.visited ++ disk.given plan root session.visited entry := by
  obtain ⟨answer, later, reached, read, after, hfollows, hlater, -, hrun⟩ :=
    disk.follow_run plan ha entry history
  refine ⟨later, after, ?_⟩
  unfold given
  cases hfollows with
  | skipped hskip hvisited _ =>
    rw [if_neg fun h => hskip.elim (fun hn => hn h.1) h.2]
    exact ⟨hrun, hlater, hvisited.trans (List.append_nil _).symm⟩
  | rootless hfile _ hfault => cases hfault.symm.trans (hroot hfile)
  | @searched root' _ hfile hnew hroot' hvisited _ =>
    cases hroot'.symm.trans (hroot hfile)
    have hready := ready_place ha.nodup hnew hfile hroot'
    rw [if_pos ⟨hfile, hnew⟩]
    refine ⟨hrun, hlater, ?_⟩
    rw [hvisited, (hready.sound plan).known_eq, hready.items_eq plan]

/-- Following several entries on a disk gives their lists. -/
theorem followEach_lists {entries : List Text} {session : Session} (ha : session.Aligned)
    (hroot : disk.ShareRoot plan.conventions root entries) (history : History) :
    ∃ later after, (followEach disk.surroundings plan entries session).run history =
        ((.ok (disk.lists plan root session.visited entries).flatten, later), after) := by
  induction entries generalizing session history with
  | nil => exact ⟨session, history, rfl⟩
  | cons entry entries ih =>
    obtain ⟨between, asked, hrun, hbetween, hvisited⟩ :=
      follow_given ha (hroot entry List.mem_cons_self) history
    obtain ⟨later, after, hmore⟩ :=
      ih hbetween (fun other hother => hroot other (List.mem_cons_of_mem _ hother)) asked
    refine ⟨later, after, ?_⟩
    rw [surroundings, followEach_cons hrun hmore, lists, hvisited]
    rfl

/-- The answer for several entries is what their lists give together. -/
theorem followImports_eq_lists {entries : List Text}
    (hroot : disk.ShareRoot plan.conventions root entries) :
    disk.followImports plan entries = .ok (disk.lists plan root [] entries).flatten := by
  have hfresh : Reached disk.world plan [] {} [] := .fresh
  obtain ⟨later, after, hrun⟩ := followEach_lists Session.aligned_fresh hroot []
  unfold followImports surroundings
  unfold surroundings at hrun
  rw [hfresh.followAll_eq, hrun]

/-- The files that an entry gives are those within the bound that can be reached without the files
given before. -/
theorem mem_given_iff {around : List Path} {entry : Text} (hnodup : around.Nodup)
    (hroot : disk.isFile (disk.place entry) = .ok true →
      disk.rootOf plan.conventions (disk.place entry) = .ok root) (file : Path) :
    file ∈ disk.given plan root around entry ↔
      disk.isFile (disk.place entry) = .ok true ∧ disk.place entry ∉ around ∧
        ∃ n, Within plan.maxDepth n ∧
          Hops (fun a b => disk.Imports plan.conventions root a b ∧ b ∉ around)
            (disk.place entry) n file := by
  unfold given
  split
  · rename_i h
    rw [(ready_place hnodup h.2 h.1 (hroot h.1)).mem_taken_fst_iff plan]
    exact ⟨fun hmem => ⟨h.1, h.2, hmem⟩, fun hmem => hmem.2.2⟩
  · rename_i h
    exact ⟨fun hmem => absurd hmem List.not_mem_nil, fun hmem => absurd ⟨hmem.1, hmem.2.1⟩ h⟩

/-- What an entry gives is new, and no file comes twice in it. -/
theorem append_given_nodup (plan : Plan) {around : List Path} (hnodup : around.Nodup)
    (entry : Text)
    (hroot : disk.isFile (disk.place entry) = .ok true →
      disk.rootOf plan.conventions (disk.place entry) = .ok root) :
    (around ++ disk.given plan root around entry).Nodup := by
  unfold given
  split
  · rename_i h
    exact (ready_place hnodup h.2 h.1 (hroot h.1)).append_taken_nodup plan
  · rwa [List.append_nil]

/-- All the lists together have no file twice, nor one that was given before. -/
theorem append_lists_nodup (plan : Plan) {entries : List Text} {around : List Path}
    (hnodup : around.Nodup) (hroot : disk.ShareRoot plan.conventions root entries) :
    (around ++ (disk.lists plan root around entries).flatten).Nodup := by
  induction entries generalizing around with
  | nil => rwa [lists, List.flatten_nil, List.append_nil]
  | cons entry entries ih =>
    have hone := append_given_nodup plan hnodup entry (hroot entry List.mem_cons_self)
    rw [lists, List.flatten_cons, ← List.append_assoc]
    exact ih hone fun other hother => hroot other (List.mem_cons_of_mem _ hother)

/-- The list of an entry has the files within the bound that can be reached without those of the
earlier lists. -/
theorem mem_lists_iff (plan : Plan) {entries : List Text}
    (hroot : disk.ShareRoot plan.conventions root entries) (i : Nat) (h : i < entries.length)
    (h' : i < (disk.lists plan root [] entries).length) (file : Path) :
    file ∈ (disk.lists plan root [] entries)[i] ↔
      disk.isFile (disk.place entries[i]) = .ok true ∧
        disk.place entries[i] ∉ ((disk.lists plan root [] entries).take i).flatten ∧
        ∃ n, Within plan.maxDepth n ∧ Hops (fun a b => disk.Imports plan.conventions root a b ∧
          b ∉ ((disk.lists plan root [] entries).take i).flatten) (disk.place entries[i]) n
          file := by
  have hnodup := append_lists_nodup plan List.nodup_nil hroot
  have hearlier : ((disk.lists plan root [] entries).take i).flatten.Nodup :=
    (List.Sublist.flatten (List.take_sublist i _)).nodup hnodup
  rw [lists_getElem h h', List.nil_append,
    mem_given_iff hearlier (hroot entries[i] (List.getElem_mem h))]

/-- With a bound on the depth, each entry gives exactly the files to which a chain of so many
imports leads that meets none of the files given for earlier entries. So every file given lies
within the bound of some entry, and no file is given twice. -/
theorem followImports_bounded (disk : Disk) (conventions : Conventions) (limit : Nat)
    {root : Option Path} {entries : List Text} (hroot : disk.ShareRoot conventions root entries) :
    ∃ lists : List (List Path),
      disk.followImports { maxDepth := some limit, conventions } entries = .ok lists.flatten ∧
      lists.flatten.Nodup ∧ lists.length = entries.length ∧
      (∀ (i : Nat) (h : i < entries.length) (h' : i < lists.length) (file : Path),
        file ∈ lists[i] ↔
          disk.isFile (disk.place entries[i]) = .ok true ∧
            disk.place entries[i] ∉ (lists.take i).flatten ∧
            ∃ n ≤ limit, Hops (fun a b => disk.Imports conventions root a b ∧
              b ∉ (lists.take i).flatten) (disk.place entries[i]) n file) ∧
      ∀ file ∈ lists.flatten, ∃ entry ∈ entries, disk.isFile (disk.place entry) = .ok true ∧
        ∃ n ≤ limit, Hops (disk.Imports conventions root) (disk.place entry) n file := by
  have hlength := disk.lists_length { maxDepth := some limit, conventions } root [] entries
  have hnodup := append_lists_nodup { maxDepth := some limit, conventions } List.nodup_nil hroot
  have hmem := mem_lists_iff { maxDepth := some limit, conventions } hroot
  simp only [within_some] at hmem
  refine ⟨_, followImports_eq_lists hroot, hnodup, hlength, hmem, ?_⟩
  intro file hfile
  obtain ⟨given, hgiven, hfile⟩ := List.mem_flatten.mp hfile
  obtain ⟨i, hi, rfl⟩ := List.getElem_of_mem hgiven
  obtain ⟨hisFile, -, n, hn, hops⟩ := (hmem i (hlength ▸ hi) hi file).mp hfile
  exact ⟨entries[i], List.getElem_mem _, hisFile, n, hn, hops.mono fun a b hab => hab.1⟩

section Unbounded

variable {conventions : Conventions} {around : List Path} {entry : Text}

/-- Without a bound, the files given so far stay closed under imports. -/
theorem append_given_closed (hnodup : around.Nodup)
    (hroot : disk.isFile (disk.place entry) = .ok true →
      disk.rootOf conventions (disk.place entry) = .ok root)
    (hc : Sweep.Closed (disk.imports conventions root) around) :
    Sweep.Closed (disk.imports conventions root)
      (around ++ disk.given { conventions } root around entry) := by
  unfold given
  split
  · rename_i h
    have hready := ready_place hnodup h.2 h.1 (hroot h.1)
    intro y hy z hz
    rw [List.mem_append] at hy ⊢
    rcases hy with hy | hy
    · exact Or.inl (hc y hy z hz)
    · obtain ⟨⟨y, depth⟩, htaken, rfl⟩ := List.mem_map.mp hy
      have hclosed := (hready.sound { conventions }).closed _ htaken z
      rcases hclosed (mem_offspring hz (within_none _)) with ha | ⟨e, he, -⟩
      · exact Or.inl ha
      · rw [hready.items_eq { conventions }] at he
        exact Or.inr (List.mem_map.mpr ⟨(z, e), he, rfl⟩)
  · rwa [List.append_nil]

/-- Without a bound, an entry gives after others what it gives alone, but for the files given
before. -/
theorem given_eq_filter (hnodup : around.Nodup)
    (hroot : disk.isFile (disk.place entry) = .ok true →
      disk.rootOf conventions (disk.place entry) = .ok root)
    (hc : Sweep.Closed (disk.imports conventions root) around) :
    disk.given { conventions } root around entry =
      (disk.given { conventions } root [] entry).filter (· ∉ around) := by
  by_cases hfile : disk.isFile (disk.place entry) = .ok true
  · have hempty : disk.place entry ∉ ([] : List Path) := List.not_mem_nil
    by_cases hx : disk.place entry ∈ around
    · -- All that the entry leads to was given before.
      rw [given, if_neg fun h => h.2 hx, eq_comm, List.filter_eq_nil_iff]
      intro y hy
      obtain ⟨-, -, n, -, hops⟩ := (mem_given_iff List.nodup_nil hroot y).mp hy
      have hy : y ∈ around := by
        refine hops.induct (P := (· ∈ around)) hx ?_
        rintro a b ha ⟨hab, -⟩
        exact hc a ha b (mem_imports.mpr hab)
      simpa only [decide_eq_true_eq, not_not] using hy
    · have hall := ready_place List.nodup_nil hempty hfile (hroot hfile)
      have hsome := ready_place hnodup hx hfile (hroot hfile)
      have htaken := Sweep.taken_around_eq hc hx (hall.queue_eq_nil { conventions })
        (hsome.queue_eq_nil { conventions })
      have hswept : (disk.sweep { conventions } root around (disk.place entry)).taken =
          Sweep.outside around (disk.sweep { conventions } root [] (disk.place entry)).taken :=
        htaken
      rw [given, given, if_pos ⟨hfile, hx⟩, if_pos ⟨hfile, hempty⟩, hswept, List.filter_map]
      rfl
  · rw [given, given, if_neg fun h => hfile h.1, if_neg fun h => hfile h.1]
    rfl

/-- Without a bound, several entries give after others what they give alone, each file where it
comes first, but for the files given before. -/
theorem flatten_lists_eq {entries : List Text} (hnodup : around.Nodup)
    (hroot : disk.ShareRoot conventions root entries)
    (hc : Sweep.Closed (disk.imports conventions root) around) :
    (disk.lists { conventions } root around entries).flatten =
      ((entries.flatMap (disk.given { conventions } root [])).filter (· ∉ around)).eraseDups := by
  induction entries generalizing around with
  | nil => rfl
  | cons entry entries ih =>
    have hentry := hroot entry List.mem_cons_self
    have hgiven := given_eq_filter hnodup hentry hc
    have hone := append_given_nodup { conventions } hnodup entry hentry
    have hrest := ih hone (fun other hother => hroot other (List.mem_cons_of_mem _ hother))
      (append_given_closed hnodup hentry hc)
    rw [lists, List.flatten_cons, hrest, List.flatMap_cons, List.filter_append,
      List.eraseDups_append, ← hgiven, eraseDups_of_nodup (List.nodup_append.mp hone).2.1]
    congr 2
    rw [List.removeAll, List.filter_filter]
    apply List.filter_congr
    intro y _
    simp [not_or, Bool.and_comm]

end Unbounded

/-- Without a bound, several entries give what each of them gives alone, each file where it comes
first. In another order they give the same files. -/
theorem followImports_merge (disk : Disk) (conventions : Conventions) {root : Option Path}
    {entries : List Text} (hroot : disk.ShareRoot conventions root entries) :
    ∃ alone : Text → List Path,
      (∀ entry ∈ entries, disk.followImports { conventions } [entry] = .ok (alone entry)) ∧
      disk.followImports { conventions } entries = .ok (entries.flatMap alone).eraseDups ∧
      ∀ other : List Text, other.Perm entries →
        ∃ files, disk.followImports { conventions } other = .ok files ∧
          ∀ file, file ∈ files ↔ file ∈ (entries.flatMap alone).eraseDups := by
  have hc : Sweep.Closed (disk.imports conventions root) [] := nofun
  have hmerge : ∀ other : List Text, disk.ShareRoot conventions root other →
      disk.followImports { conventions } other =
        .ok (other.flatMap (disk.given { conventions } root [])).eraseDups := by
    intro other hother
    rw [followImports_eq_lists hother, flatten_lists_eq List.nodup_nil hother hc]
    simp only [List.not_mem_nil, not_false_eq_true, decide_true, List.filter_true]
  refine ⟨disk.given { conventions } root [], ?_, hmerge entries hroot, ?_⟩
  · intro entry hentry
    have hone : disk.ShareRoot conventions root [entry] := by
      intro other hother
      rw [List.mem_singleton.mp hother]
      exact hroot entry hentry
    rw [followImports_eq_lists hone]
    exact congrArg Except.ok (List.append_nil _)
  · intro other hperm
    refine ⟨_, hmerge other fun entry hentry => hroot entry (hperm.mem_iff.mp hentry), ?_⟩
    intro file
    simp only [List.mem_eraseDups, List.mem_flatMap, hperm.mem_iff]

end Disk

/-- In the chain the files that are asked about have no root. -/
theorem chain_shareRoot : chain.ShareRoot {} none ["a.js".toList, "b.js".toList] := by
  have hfirst : chain.rootOf {} (chain.place "a.js".toList) = .ok none := by decide +kernel
  have hsecond : chain.rootOf {} (chain.place "b.js".toList) = .ok none := by decide +kernel
  intro entry hentry _
  rcases List.mem_cons.mp hentry with rfl | hentry
  · exact hfirst
  · rw [List.mem_singleton.mp hentry]
    exact hsecond

/-- If one import is allowed, the first two files of the chain give no others. -/
theorem followImports_chain : chain.followImports { maxDepth := some 1 }
    ["a.js".toList, "b.js".toList] =
      .ok [chain.place "a.js".toList, chain.place "b.js".toList] := by decide +kernel

/-- The third file of the chain is not given, although the second imports it: the second was given
for the first. -/
theorem followImports_bounded_chain :
    ∃ lists : List (List Path), chain.followImports { maxDepth := some 1 }
        ["a.js".toList, "b.js".toList] = .ok lists.flatten ∧ lists.length = 2 ∧
      lists.flatten = [chain.place "a.js".toList, chain.place "b.js".toList] := by
  obtain ⟨lists, hanswer, -, hlength, -⟩ := chain.followImports_bounded {} 1 chain_shareRoot
  refine ⟨lists, hanswer, hlength, ?_⟩
  rw [followImports_chain] at hanswer
  exact (Except.ok.inj hanswer).symm

/-- With a bound on the depth, a file within the bound of an entry may be missing. -/
theorem exists_file_lost :
    ¬ ∀ (disk : Disk) (conventions : Conventions) (limit : Nat) (root : Option Path)
      (entries : List Text), disk.ShareRoot conventions root entries →
      ∃ files, disk.followImports { maxDepth := some limit, conventions } entries = .ok files ∧
        ∀ file, file ∈ files ↔ ∃ entry ∈ entries, disk.isFile (disk.place entry) = .ok true ∧
          ∃ n ≤ limit, Hops (disk.Imports conventions root) (disk.place entry) n file := by
  intro h
  obtain ⟨files, hanswer, hfiles⟩ :=
    h chain {} 1 none ["a.js".toList, "b.js".toList] chain_shareRoot
  have himports :
      chain.Imports {} none (chain.place "b.js".toList) (chain.place "c.js".toList) := by
    rw [← Disk.mem_imports]
    decide +kernel
  have hsecond : chain.isFile (chain.place "b.js".toList) = .ok true := by decide +kernel
  have hthird : chain.place "c.js".toList ∈ files := by
    refine (hfiles _).mpr ⟨"b.js".toList, ?_, hsecond, 1, Nat.le_refl 1, .hop .here himports⟩
    exact List.mem_cons_of_mem _ List.mem_cons_self
  rw [followImports_chain] at hanswer
  cases hanswer
  revert hthird
  decide +kernel

/-- Without a bound, the first two files of the chain give in either order the same files. -/
theorem followImports_merge_chain :
    ∃ alone : Text → List Path,
      chain.followImports {} ["a.js".toList] = .ok (alone "a.js".toList) ∧
      chain.followImports {} ["b.js".toList] = .ok (alone "b.js".toList) ∧
      chain.followImports {} ["a.js".toList, "b.js".toList] =
        .ok (alone "a.js".toList ++ (alone "b.js".toList ++ [])).eraseDups := by
  obtain ⟨alone, hone, hall, -⟩ := chain.followImports_merge {} chain_shareRoot
  exact ⟨alone, hone _ List.mem_cons_self, hone _ (List.mem_cons_of_mem _ List.mem_cons_self), hall⟩

end SourceLoom.Traversal
