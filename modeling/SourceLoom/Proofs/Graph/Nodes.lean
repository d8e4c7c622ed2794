import SourceLoom.Graph

/-!
# Nodes of a graph

A file that a graph has stays where it is, with its depth, and a new one comes last. An import
adds at most its target, and any other reference adds nothing, once the source is in the graph.
-/

namespace SourceLoom.Graph

/-- A graph has exactly its files. -/
theorem has_eq_true_iff {graph : Graph} {file : Path} :
    graph.has file = true ↔ file ∈ graph.files := by
  rw [has, decide_eq_true_iff]

/-- A file with a depth is in the graph. -/
theorem mem_files_of_depth? {graph : Graph} {file : Path} {depth : Int}
    (h : graph.depth? file = some depth) : file ∈ graph.files := by
  unfold depth? at h
  obtain ⟨_, _, hn, -⟩ := List.lookup_eq_some_iff.mp h
  rw [files, hn]
  simp only [List.map_append, List.map_cons, List.mem_append, List.mem_cons, true_or, or_true]

/-- If no file comes twice, the depth of a file is the one it comes with. -/
theorem depth?_eq_some_iff {graph : Graph} (h : graph.files.Nodup) {file : Path}
    {depth : Int} : graph.depth? file = some depth ↔ (file, depth) ∈ graph.nodes := by
  rw [depth?, List.lookup_eq_some_iff]
  constructor
  · rintro ⟨before, after, hn, -⟩
    rw [hn]
    exact List.mem_append_right _ List.mem_cons_self
  · intro hmem
    obtain ⟨before, after, hn⟩ := List.append_of_mem hmem
    refine ⟨before, after, hn, fun node hnode => ?_⟩
    rw [files, hn, List.map_append, List.map_cons, List.nodup_append] at h
    rw [bne_iff_ne]
    exact fun he => h.2.2 _ (List.mem_map_of_mem hnode) _ List.mem_cons_self he.symm

/-- Nodes that come later leave the depth of a file as it is. -/
theorem depth?_of_nodes_eq_append {graph later : Graph} {more : List (Path × Int)}
    (hn : later.nodes = graph.nodes ++ more) {file : Path} {depth : Int}
    (h : graph.depth? file = some depth) : later.depth? file = some depth := by
  unfold depth? at h ⊢
  rw [hn, List.lookup_append, h, Option.some_or]

/-- A file that is there is not added again. -/
theorem addNode_of_mem {graph : Graph} {file : Path} (h : file ∈ graph.files) (depth : Int) :
    graph.addNode file depth = graph := by
  rw [addNode, if_pos (has_eq_true_iff.mpr h)]

/-- A new file comes last. -/
theorem addNode_nodes_of_not_mem {graph : Graph} {file : Path} (h : file ∉ graph.files)
    (depth : Int) : (graph.addNode file depth).nodes = graph.nodes ++ [(file, depth)] := by
  rw [addNode, if_neg fun hh => h (has_eq_true_iff.mp hh)]

/-- An import of a file that is there adds no node. -/
theorem addEdge_nodes_of_mem {graph : Graph} {source target : Path}
    (hs : source ∈ graph.files) (ht : target ∈ graph.files) :
    (graph.addEdge source target).nodes = graph.nodes := by
  simp only [addEdge, addNode_of_mem hs, addNode_of_mem ht]

/-- An import of a new file adds it one deeper than its source. -/
theorem addEdge_nodes_of_not_mem {graph : Graph} {source target : Path} {depth : Int}
    (hs : graph.depth? source = some depth) (ht : target ∉ graph.files) :
    (graph.addEdge source target).nodes = graph.nodes ++ [(target, depth + 1)] := by
  simp only [addEdge, addNode_of_mem (mem_files_of_depth? hs), addNode_nodes_of_not_mem ht, hs,
    Option.getD_some]

/-- A reference that led to no file adds no node. -/
theorem addMissing_nodes {graph : Graph} {source : Path} (hs : source ∈ graph.files)
    (reference : Text) : (graph.addMissing source reference).nodes = graph.nodes := by
  simp only [addMissing, addNode_of_mem hs]

/-- A reference that names a package adds no node. -/
theorem addExternal_nodes {graph : Graph} {source : Path} (hs : source ∈ graph.files)
    (reference : Text) : (graph.addExternal source reference).nodes = graph.nodes := by
  simp only [addExternal, addNode_of_mem hs]

end SourceLoom.Graph
