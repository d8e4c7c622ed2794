import SourceLoom.Proofs.Graph.Nodes

/-!
# Recording in a graph

Recording a value adds it to the values of its file and leaves all others as they are. So a graph
holds after an addition what it held before, and for the one file the one entry that was added. A
graph that grows keeps the depths of its files and the entries that it holds.
-/

namespace SourceLoom

namespace Records

variable {α : Type}

/-- The values of a file are those of the first record that is its own. -/
theorem get_cons (other file : Path) (values : List α) (records : Records α) :
    get ((other, values) :: records) file =
      if other = file then values else get records file := by
  unfold get
  rw [List.lookup_cons]
  by_cases h : other = file
  · rw [if_pos h, h, beq_self_eq_true]
    rfl
  · have hne : (file == other) = false := beq_eq_false_iff_ne.mpr fun he => h he.symm
    rw [if_neg h, hne]

variable [DecidableEq α]

/-- Recording a value adds it to the values of its file, and to no others. -/
theorem mem_get_add {records : Records α} {file source : Path} {new value : α} :
    value ∈ (records.add file new).get source ↔
      value ∈ records.get source ∨ source = file ∧ value = new := by
  induction records with
  | nil =>
    have hnone : value ∉ get ([] : Records α) source := List.not_mem_nil
    rw [add, get_cons]
    by_cases hs : file = source
    · rw [if_pos hs, List.mem_singleton]
      exact ⟨fun h => Or.inr ⟨hs.symm, h⟩, fun h => (h.resolve_left hnone).2⟩
    · rw [if_neg hs]
      exact ⟨Or.inl, fun h => h.resolve_right fun h => hs h.1.symm⟩
  | cons record records ih =>
    obtain ⟨other, values⟩ := record
    rw [add, get_cons]
    by_cases ho : other = file
    · rw [if_pos ho, get_cons]
      by_cases hs : other = source
      · rw [if_pos hs, if_pos hs]
        have hvalues : value ∈ (if new ∈ values then values else values ++ [new]) ↔
            value ∈ values ∨ value = new := by
          by_cases hn : new ∈ values
          · rw [if_pos hn]
            exact ⟨Or.inl, fun h => h.elim id fun he => he ▸ hn⟩
          · rw [if_neg hn, List.mem_append, List.mem_singleton]
        rw [hvalues]
        exact or_congr_right ⟨fun h => ⟨hs.symm.trans ho, h⟩, And.right⟩
      · rw [if_neg hs, if_neg hs]
        exact ⟨Or.inl, fun h => h.resolve_right fun h => hs (ho.trans h.1.symm)⟩
    · rw [if_neg ho, get_cons]
      by_cases hs : other = source
      · rw [if_pos hs, if_pos hs]
        exact ⟨Or.inl, fun h => h.resolve_right fun h => ho (hs.trans h.1)⟩
      · rw [if_neg hs, if_neg hs]
        exact ih

end Records

namespace Graph

/-- What may be recorded for a file. -/
inductive Entry where
  /-- It imports a file. -/
  | target (path : Path)
  /-- A local reference of it led to no file. -/
  | missing (reference : Text)
  /-- A reference of it names a package. -/
  | external (reference : Text)

/-- Whether an entry is recorded for a file. -/
def Holds (graph : Graph) (file : Path) : Entry → Prop
  | .target path => path ∈ graph.targets file
  | .missing reference => reference ∈ graph.missing.get file
  | .external reference => reference ∈ graph.external.get file

variable {graph : Graph} {file source : Path} {entry : Entry}

/-- Nothing is recorded in an empty graph. -/
theorem not_holds_empty : ¬ Graph.Holds {} source entry := by
  cases entry <;> exact List.not_mem_nil

/-- A new file brings no entries with it. -/
theorem holds_addNode {depth : Int} :
    (graph.addNode file depth).Holds source entry ↔ graph.Holds source entry := by
  unfold addNode
  split
  · exact Iff.rfl
  · cases entry <;> exact Iff.rfl

/-- An import adds one entry. -/
theorem holds_addEdge {target : Path} : (graph.addEdge file target).Holds source entry ↔
    graph.Holds source entry ∨ source = file ∧ entry = .target target := by
  have hnodes : ((graph.addNode file 0).addNode target
      (((graph.addNode file 0).depth? file).getD 0 + 1)).Holds source entry ↔
        graph.Holds source entry := holds_addNode.trans holds_addNode
  rw [← hnodes]
  cases entry with
  | target path =>
    rw [Entry.target.injEq]
    exact Records.mem_get_add
  | missing reference => exact ⟨Or.inl, fun h => h.resolve_right nofun⟩
  | external reference => exact ⟨Or.inl, fun h => h.resolve_right nofun⟩

/-- A reference that led to no file adds one entry. -/
theorem holds_addMissing {reference : Text} :
    (graph.addMissing file reference).Holds source entry ↔
      graph.Holds source entry ∨ source = file ∧ entry = .missing reference := by
  have hnodes : (graph.addNode file 0).Holds source entry ↔ graph.Holds source entry :=
    holds_addNode
  rw [← hnodes]
  cases entry with
  | target path => exact ⟨Or.inl, fun h => h.resolve_right nofun⟩
  | missing other =>
    rw [Entry.missing.injEq]
    exact Records.mem_get_add
  | external other => exact ⟨Or.inl, fun h => h.resolve_right nofun⟩

/-- A reference that names a package adds one entry. -/
theorem holds_addExternal {reference : Text} :
    (graph.addExternal file reference).Holds source entry ↔
      graph.Holds source entry ∨ source = file ∧ entry = .external reference := by
  have hnodes : (graph.addNode file 0).Holds source entry ↔ graph.Holds source entry :=
    holds_addNode
  rw [← hnodes]
  cases entry with
  | target path => exact ⟨Or.inl, fun h => h.resolve_right nofun⟩
  | missing other => exact ⟨Or.inl, fun h => h.resolve_right nofun⟩
  | external other =>
    rw [Entry.external.injEq]
    exact Records.mem_get_add

/-- A graph may become another: its files stay first, and what it holds it keeps. -/
structure Grows (graph later : Graph) : Prop where
  /-- New files come after those that were there. -/
  nodes_prefix : graph.nodes <+: later.nodes
  /-- What was recorded stays recorded. -/
  holds : ∀ file entry, graph.Holds file entry → later.Holds file entry

/-- A graph that stays as it is loses nothing. -/
theorem Grows.refl (graph : Graph) : graph.Grows graph := ⟨List.prefix_refl _, fun _ _ h => h⟩

/-- What two parts keep, both together keep. -/
theorem Grows.trans {later last : Graph} (h : graph.Grows later) (h' : later.Grows last) :
    graph.Grows last :=
  ⟨h.nodes_prefix.trans h'.nodes_prefix,
    fun file entry hheld => h'.holds file entry (h.holds file entry hheld)⟩

/-- The depth of a file stays. -/
theorem Grows.depth? {later : Graph} (h : graph.Grows later) {depth : Int}
    (hd : graph.depth? file = some depth) : later.depth? file = some depth := by
  obtain ⟨more, hmore⟩ := h.nodes_prefix
  exact depth?_of_nodes_eq_append hmore.symm hd

/-- A graph grows by a file. -/
theorem grows_addNode (graph : Graph) (file : Path) (depth : Int) :
    graph.Grows (graph.addNode file depth) := by
  refine ⟨?_, fun source entry => holds_addNode.mpr⟩
  by_cases h : file ∈ graph.files
  · refine ⟨[], ?_⟩
    rw [addNode_of_mem h, List.append_nil]
  · refine ⟨[(file, depth)], ?_⟩
    rw [addNode_nodes_of_not_mem h]

end Graph

end SourceLoom
