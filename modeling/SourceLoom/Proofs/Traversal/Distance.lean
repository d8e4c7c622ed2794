import SourceLoom.Proofs.Traversal.Disk
import SourceLoom.Proofs.Traversal.TreeDisk

/-!
# Distances from an entry

A fresh session that follows an entry on a disk finds exactly the files within the bound, and it
reports each of them at its distance from the entry, which is also its depth in the graph.
-/

namespace SourceLoom.Traversal

open Reference BreadthFirst

/-- Following one entry in a fresh session gives, each once and by their distances, the files
within the bound. The depth of a report and that of the graph are the distance. -/
theorem Disk.follow_breadth_first (disk : Disk) (plan : Plan) {entry : Text} {root : Option Path}
    (hfile : disk.isFile (disk.place entry) = .ok true)
    (hroot : disk.rootOf plan.conventions (disk.place entry) = .ok root) (history : History) :
    ∃ files later after reached,
      (follow disk.surroundings plan entry {}).run history = ((.ok files, later), after) ∧
      files.Nodup ∧
      (∀ file, file ∈ files ↔ ∃ n, Within plan.maxDepth n ∧
        Hops (disk.Imports plan.conventions root) (disk.place entry) n file) ∧
      reports after = reports history ++ reached ∧ reached.map Prod.fst = files ∧
      (∀ file depth, (file, depth) ∈ reached →
        IsLeast {n | Hops (disk.Imports plan.conventions root) (disk.place entry) n file} depth ∧
          later.graph.depth? file = some (depth : Int)) ∧
      reached.Pairwise fun a b => a.2 ≤ b.2 := by
  obtain ⟨answer, later, reached, read, after, hfollows, halign, hadds, hrun⟩ :=
    disk.follow_run plan Session.aligned_fresh entry history
  cases hfollows with
  | skipped h _ _ => exact absurd hfile (h.resolve_right List.not_mem_nil)
  | rootless _ _ h => cases h.symm.trans hroot
  | @searched root' later hfile hnew hroot' hvisited hnodes =>
    cases hroot'.symm.trans hroot
    have hready := disk.ready_place List.nodup_nil hnew hfile hroot
    have hnodup := (hready.sound plan).items_nodup.1
    have hsorted := (hready.sound plan).sorted
    rw [hready.items_eq plan] at hnodup hsorted
    -- Going around nothing, the chains are those of the import relation.
    have hmem := hready.mem_taken_iff plan
    have hfst := hready.mem_taken_fst_iff plan
    simp only [List.not_mem_nil, not_false_eq_true, and_true] at hmem hfst
    refine ⟨_, later, after, _, hrun, hnodup, hfst, hadds.reports_eq, rfl, ?_, hsorted⟩
    intro file depth htaken
    refine ⟨((hmem file depth).mp htaken).2, ?_⟩
    have hfiles : later.graph.files.Nodup := halign.visited_eq ▸ halign.nodup
    rw [Graph.depth?_eq_some_iff hfiles, hnodes]
    exact List.mem_append_right _ (List.mem_map.mpr ⟨(file, depth), htaken, rfl⟩)

/-- From the first of three files in a chain, one import leads to the second. -/
theorem follow_breadth_first_chain :
    ∃ files later after, (follow chain.surroundings { maxDepth := some 1 } "/w/a.js".toList {}).run
        [] = ((.ok files, later), after) ∧
      ∀ file, file ∈ files ↔ ∃ n, Within (some 1) n ∧
        Hops (chain.Imports {} none) (chain.place "/w/a.js".toList) n file := by
  have hfile : chain.isFile (chain.place "/w/a.js".toList) = .ok true := by decide +kernel
  have hroot : chain.rootOf {} (chain.place "/w/a.js".toList) = .ok none := by decide +kernel
  obtain ⟨files, later, after, reached, hrun, -, hfiles, -⟩ :=
    chain.follow_breadth_first { maxDepth := some 1 } hfile hroot []
  exact ⟨files, later, after, hrun, hfiles⟩

end SourceLoom.Traversal
