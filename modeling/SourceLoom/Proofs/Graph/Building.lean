import Mathlib.Data.List.Induction
import SourceLoom.Proofs.Distinct
import SourceLoom.Proofs.Graph.Records
import SourceLoom.Proofs.Text.Order

/-!
# Graphs built by additions

A graph is built from an empty one by adding files, imports, and references that lead to no file
of it, in any order and any number of times. What it then holds can be read off the additions: its
files in the order in which they were first mentioned, the depth that the first mention gave to
each of them, and each pair that was added, once.
-/

namespace SourceLoom

namespace Graph

/-- What may be added to a graph. -/
inductive Addition where
  /-- A file with a depth. -/
  | node (file : Path) (depth : Int)
  /-- An import. -/
  | edge (source target : Path)
  /-- A local reference that led to no file. -/
  | missing (source : Path) (reference : Text)
  /-- A reference that names a package. -/
  | external (source : Path) (reference : Text)
  deriving DecidableEq, Repr

namespace Addition

/-- The graph with what is added. -/
def apply (graph : Graph) : Addition → Graph
  | node file depth => graph.addNode file depth
  | edge source target => graph.addEdge source target
  | missing source reference => graph.addMissing source reference
  | external source reference => graph.addExternal source reference

/-- The files that an addition mentions, the source of an import before its target. -/
def files : Addition → List Path
  | node file _ => [file]
  | edge source target => [source, target]
  | missing source _ => [source]
  | external source _ => [source]

/-- The depth that an addition gives to a file which it is the first to mention: the depth that
it names, zero for a source, and for the target of an import one more than the depth of its
source in a graph. -/
def depthIn? (graph : Graph) (file : Path) : Addition → Option Int
  | node _ depth => some depth
  | edge source _ => if file = source then some 0 else (graph.depth? source).map (· + 1)
  | missing _ _ => some 0
  | external _ _ => some 0

/-- The entry that an addition makes for a file. -/
def entry? : Addition → Option (Path × Entry)
  | node _ _ => none
  | edge source target => some (source, .target target)
  | missing source reference => some (source, .missing reference)
  | external source reference => some (source, .external reference)

end Addition

/-- The graph that additions build from an empty one. -/
def ofAdditions (additions : List Addition) : Graph := additions.foldl Addition.apply {}

/-- The files that additions mention, each time they do. -/
def mentioned (additions : List Addition) : List Path := additions.flatMap Addition.files

variable {graph : Graph} {file source target : Path} {depth : Int} {addition : Addition}
  {additions : List Addition}

/-- One addition more. -/
theorem ofAdditions_concat (additions : List Addition) (addition : Addition) :
    ofAdditions (additions ++ [addition]) = addition.apply (ofAdditions additions) :=
  List.foldl_append

/-- The mentions of one addition more. -/
theorem mentioned_concat (additions : List Addition) (addition : Addition) :
    mentioned (additions ++ [addition]) = mentioned additions ++ addition.files := by
  rw [mentioned, List.flatMap_append, List.flatMap_singleton, mentioned]

/-! ### Files and depths -/

/-- A file that is added comes last, if it was not mentioned before. -/
theorem files_addNode {mentions : List Path} (h : graph.files = mentions.eraseDups) (file : Path)
    (depth : Int) : (graph.addNode file depth).files = (mentions ++ [file]).eraseDups := by
  have hmem : file ∈ graph.files ↔ file ∈ mentions := by rw [h, List.mem_eraseDups]
  rw [eraseDups_concat, ← h]
  by_cases hfile : file ∈ mentions
  · rw [if_pos hfile, addNode_of_mem (hmem.mpr hfile)]
  · rw [if_neg hfile, files, addNode_nodes_of_not_mem fun hf => hfile (hmem.mp hf),
      List.map_append]
    rfl

/-- An addition adds the files that it mentions, in the order in which it does. -/
theorem files_apply {mentions : List Path} (h : graph.files = mentions.eraseDups)
    (addition : Addition) :
    (addition.apply graph).files = (mentions ++ addition.files).eraseDups := by
  cases addition with
  | node file depth => exact files_addNode h file depth
  | edge source target =>
    have hsource := files_addNode h source 0
    have htarget := files_addNode hsource target
      (((graph.addNode source 0).depth? source).getD 0 + 1)
    rwa [List.append_assoc] at htarget
  | missing source reference => exact files_addNode h source 0
  | external source reference => exact files_addNode h source 0

/-- The files of a graph are those that were mentioned, in the order of their first mention. -/
theorem files_ofAdditions (additions : List Addition) :
    (ofAdditions additions).files = (mentioned additions).eraseDups := by
  induction additions using List.reverseRecOn with
  | nil => rfl
  | append_singleton additions addition ih =>
    rw [ofAdditions_concat, mentioned_concat]
    exact files_apply ih addition

/-- A file of a graph has a depth. -/
theorem exists_depth_of_mem (h : file ∈ graph.files) : ∃ depth, graph.depth? file = some depth := by
  obtain ⟨node, hnode, rfl⟩ := List.mem_map.mp h
  cases hlookup : graph.nodes.lookup node.1 with
  | some depth => exact ⟨depth, hlookup⟩
  | none =>
    have hne := List.lookup_eq_none_iff.mp hlookup node hnode
    rw [bne_self_eq_false] at hne
    cases hne

/-- A file that is new has the depth that it was added with. -/
theorem depth?_addNode_self (h : file ∉ graph.files) :
    (graph.addNode file depth).depth? file = some depth := by
  have hnone : graph.nodes.lookup file = none := by
    cases hlookup : graph.nodes.lookup file with
    | none => rfl
    | some other => exact absurd (mem_files_of_depth? hlookup) h
  rw [depth?, addNode_nodes_of_not_mem h, List.lookup_append, hnone, List.lookup_cons,
    beq_self_eq_true]
  rfl

/-- A graph grows by every addition. -/
theorem grows_apply (graph : Graph) (addition : Addition) : graph.Grows (addition.apply graph) := by
  cases addition with
  | node file depth => exact grows_addNode graph file depth
  | edge source target =>
    have hnodes := (grows_addNode graph source 0).trans (grows_addNode _ target
      (((graph.addNode source 0).depth? source).getD 0 + 1))
    have hbegin := Grows.nodes_prefix hnodes
    exact ⟨hbegin, fun _ _ h => holds_addEdge.mpr (Or.inl h)⟩
  | missing source reference =>
    have hbegin := Grows.nodes_prefix (grows_addNode graph source 0)
    exact ⟨hbegin, fun _ _ h => holds_addMissing.mpr (Or.inl h)⟩
  | external source reference =>
    have hbegin := Grows.nodes_prefix (grows_addNode graph source 0)
    exact ⟨hbegin, fun _ _ h => holds_addExternal.mpr (Or.inl h)⟩

/-- A graph grows as more is added. -/
theorem grows_ofAdditions (before after : List Addition) :
    (ofAdditions before).Grows (ofAdditions (before ++ after)) := by
  induction after using List.reverseRecOn with
  | nil =>
    rw [List.append_nil]
    exact Grows.refl _
  | append_singleton after addition ih =>
    rw [← List.append_assoc, ofAdditions_concat]
    exact ih.trans (grows_apply _ addition)

/-- A file that an addition is the first to mention gets its depth from it. -/
theorem depth?_apply (hmem : file ∈ addition.files) (hnew : file ∉ graph.files) :
    (addition.apply graph).depth? file = addition.depthIn? (addition.apply graph) file := by
  cases addition with
  | node other depth =>
    rw [List.mem_singleton.mp hmem] at hnew ⊢
    exact depth?_addNode_self hnew
  | edge source target =>
    have hsource : source ∈ (graph.addNode source 0).files := by
      by_cases h : source ∈ graph.files
      · rwa [addNode_of_mem h]
      · exact mem_files_of_depth? (depth?_addNode_self h)
    obtain ⟨depth, hdepth⟩ := exists_depth_of_mem hsource
    -- the import leaves the nodes as adding its two files does
    have hnodes (other : Path) : (graph.addEdge source target).depth? other =
        ((graph.addNode source 0).addNode target (depth + 1)).depth? other := by
      rw [addEdge, hdepth]
      rfl
    have hkept := (grows_addNode (graph.addNode source 0) target (depth + 1)).depth? hdepth
    rw [Addition.apply, Addition.depthIn?, hnodes, hnodes, hkept]
    split
    · rename_i heq
      subst heq
      have hzero : (graph.addNode file 0).depth? file = some 0 := depth?_addNode_self hnew
      rw [hkept, ← hdepth, hzero]
    · rename_i hne
      obtain rfl : file = target := by
        simpa [Addition.files, hne] using hmem
      refine depth?_addNode_self fun h => ?_
      by_cases hs : source ∈ graph.files
      · rw [addNode_of_mem hs] at h
        exact hnew h
      · rw [files, addNode_nodes_of_not_mem hs, List.map_append, List.mem_append] at h
        exact h.elim hnew fun h => hne (List.mem_singleton.mp h)
  | missing source reference =>
    rw [List.mem_singleton.mp hmem] at hnew ⊢
    exact depth?_addNode_self hnew
  | external source reference =>
    rw [List.mem_singleton.mp hmem] at hnew ⊢
    exact depth?_addNode_self hnew

/-! ### What is recorded -/

/-- An addition makes at most one entry, and no entry goes. -/
theorem holds_apply {entry : Entry} : (addition.apply graph).Holds source entry ↔
    graph.Holds source entry ∨ addition.entry? = some (source, entry) := by
  have hpair (file : Path) (new : Entry) :
      some (file, new) = some (source, entry) ↔ source = file ∧ entry = new := by
    simp [eq_comm]
  cases addition with
  | node file depth => exact holds_addNode.trans (or_iff_left nofun).symm
  | edge file target => exact holds_addEdge.trans (or_congr_right (hpair _ _).symm)
  | missing file reference => exact holds_addMissing.trans (or_congr_right (hpair _ _).symm)
  | external file reference => exact holds_addExternal.trans (or_congr_right (hpair _ _).symm)

/-- A graph holds exactly the entries that were added. -/
theorem holds_ofAdditions {entry : Entry} : (ofAdditions additions).Holds source entry ↔
    ∃ addition ∈ additions, addition.entry? = some (source, entry) := by
  induction additions using List.reverseRecOn with
  | nil => exact ⟨fun h => absurd h not_holds_empty, fun ⟨_, h, _⟩ => absurd h List.not_mem_nil⟩
  | append_singleton additions addition ih =>
    rw [ofAdditions_concat, holds_apply, ih]
    simp only [List.mem_append, List.mem_singleton, or_and_right, exists_or, exists_eq_left]

/-- No record of a graph repeats anything. -/
structure Sound (graph : Graph) : Prop where
  /-- Neither a file nor one of its imports comes twice. -/
  edges : graph.edges.Sound
  /-- Nor does a reference that led to no file. -/
  missing : graph.missing.Sound
  /-- Nor does a reference that names a package. -/
  external : graph.external.Sound

/-- A file brings no records with it. -/
theorem Sound.addNode (h : graph.Sound) (file : Path) (depth : Int) :
    (graph.addNode file depth).Sound := by
  unfold Graph.addNode
  split
  · exact h
  · exact ⟨h.edges, h.missing, h.external⟩

/-- An addition repeats nothing in a record. -/
theorem Sound.apply (h : graph.Sound) (addition : Addition) : (addition.apply graph).Sound := by
  cases addition with
  | node file depth => exact h.addNode file depth
  | edge source target =>
    obtain ⟨hedges, hmissing, hexternal⟩ := (h.addNode source 0).addNode target
      (((graph.addNode source 0).depth? source).getD 0 + 1)
    exact ⟨hedges.add source target, hmissing, hexternal⟩
  | missing source reference =>
    obtain ⟨hedges, hmissing, hexternal⟩ := h.addNode source 0
    exact ⟨hedges, hmissing.add source reference, hexternal⟩
  | external source reference =>
    obtain ⟨hedges, hmissing, hexternal⟩ := h.addNode source 0
    exact ⟨hedges, hmissing, hexternal.add source reference⟩

/-- A graph that additions built repeats nothing in a record. -/
theorem sound_ofAdditions (additions : List Addition) : (ofAdditions additions).Sound := by
  induction additions using List.reverseRecOn with
  | nil => exact ⟨Records.Sound.nil, Records.Sound.nil, Records.Sound.nil⟩
  | append_singleton additions addition ih =>
    rw [ofAdditions_concat]
    exact ih.apply addition

/-- Sorting keeps the files. -/
theorem sort_perm (files : List Path) : (Path.sort files).Perm files := List.mergeSort_perm files _

/-- The imports of a graph are its files with their targets. -/
theorem mem_edgePairs_iff (h : graph.Sound) :
    (source, target) ∈ graph.edgePairs ↔ graph.Holds source (.target target) :=
  Records.mem_pairs_iff sort_perm h.edges

/-- The pairs of a graph for local references are those that it holds. -/
theorem mem_missingPairs_iff (h : graph.Sound) {reference : Text} :
    (source, reference) ∈ graph.missingPairs ↔ graph.Holds source (.missing reference) :=
  Records.mem_pairs_iff Text.sort_perm h.missing

/-- The pairs of a graph for packages are those that it holds. -/
theorem mem_externalPairs_iff (h : graph.Sound) {reference : Text} :
    (source, reference) ∈ graph.externalPairs ↔ graph.Holds source (.external reference) :=
  Records.mem_pairs_iff Text.sort_perm h.external

/-- A file imports another exactly if it is among the files that import the other. -/
theorem mem_sources_iff (h : graph.Sound) :
    source ∈ graph.sources target ↔ target ∈ graph.targets source := by
  rw [targets, Records.mem_get_iff h.edges.files_nodup, sources, List.mem_map]
  constructor
  · rintro ⟨⟨file, values⟩, hr, rfl⟩
    obtain ⟨hr, htarget⟩ := List.mem_filter.mp hr
    exact ⟨values, hr, of_decide_eq_true htarget⟩
  · rintro ⟨values, hr, htarget⟩
    exact ⟨(source, values), List.mem_filter.mpr ⟨hr, decide_eq_true htarget⟩, rfl⟩

/-- The line that counts what is in a graph counts its files and its pairs. -/
theorem summary_eq_lengths (graph : Graph) :
    graph.summary = "ImportGraph(nodes=".toList ++ Text.ofNat graph.files.length ++
      ", edges=".toList ++ Text.ofNat graph.edgePairs.length ++
      ", missing=".toList ++ Text.ofNat graph.missingPairs.length ++
      ", external=".toList ++ Text.ofNat graph.externalPairs.length ++ [')'] := by
  have hnodes : graph.files.length = graph.nodes.length := List.length_map _
  have hedges : graph.edgePairs.length = graph.edges.count := Records.length_pairs sort_perm _
  have hmissing : graph.missingPairs.length = graph.missing.count :=
    Records.length_pairs Text.sort_perm _
  have hexternal : graph.externalPairs.length = graph.external.count :=
    Records.length_pairs Text.sort_perm _
  rw [hnodes, hedges, hmissing, hexternal]
  rfl

/-- A graph that says of additions exactly what they said. -/
structure Reflects (graph : Graph) (additions : List Addition) : Prop where
  /-- Its files are those that were mentioned, in the order of their first mention. -/
  files_eq : graph.files = (mentioned additions).eraseDups
  /-- No file comes twice. -/
  files_nodup : graph.files.Nodup
  /-- It has the files that were mentioned, and no other. -/
  has_iff : ∀ file, graph.has file = true ↔ file ∈ mentioned additions
  /-- These files have a depth, and no other. -/
  depth_isSome_iff : ∀ file, (graph.depth? file).isSome = true ↔ file ∈ mentioned additions
  /-- The first addition to mention a file gives it its depth. -/
  depth_first : ∀ before addition after, additions = before ++ addition :: after →
    ∀ file ∈ addition.files, file ∉ mentioned before →
      graph.depth? file = addition.depthIn? graph file
  /-- The depth of a file is the one that it had as soon as it was mentioned. -/
  depth_kept : ∀ before after, additions = before ++ after → ∀ file ∈ mentioned before,
    graph.depth? file = (ofAdditions before).depth? file
  /-- The imports are those that were added. -/
  mem_edgePairs : ∀ source target,
    (source, target) ∈ graph.edgePairs ↔ .edge source target ∈ additions
  /-- The local references that led to no file are those that were added. -/
  mem_missingPairs : ∀ source reference,
    (source, reference) ∈ graph.missingPairs ↔ .missing source reference ∈ additions
  /-- The references that name packages are those that were added. -/
  mem_externalPairs : ∀ source reference,
    (source, reference) ∈ graph.externalPairs ↔ .external source reference ∈ additions
  /-- No pair comes twice. -/
  pairs_nodup : graph.edgePairs.Nodup ∧ graph.missingPairs.Nodup ∧ graph.externalPairs.Nodup
  /-- The imports can be looked up by their source. -/
  mem_targets : ∀ source target,
    target ∈ graph.targets source ↔ (source, target) ∈ graph.edgePairs
  /-- The imports can be looked up by their target. -/
  mem_sources : ∀ source target,
    source ∈ graph.sources target ↔ (source, target) ∈ graph.edgePairs
  /-- Both ends of an import are files of the graph. -/
  edge_files : ∀ source target, (source, target) ∈ graph.edgePairs →
    source ∈ graph.files ∧ target ∈ graph.files
  /-- A file with a reference that led to no file is a file of the graph. -/
  missing_files : ∀ source reference, (source, reference) ∈ graph.missingPairs →
    source ∈ graph.files
  /-- A file with a reference that names a package is a file of the graph. -/
  external_files : ∀ source reference, (source, reference) ∈ graph.externalPairs →
    source ∈ graph.files
  /-- It has as many nodes as files. -/
  nodes_length : graph.nodes.length = (mentioned additions).eraseDups.length
  /-- The line that counts what is in the graph counts the files and the three kinds of pairs. -/
  summary_eq : graph.summary = "ImportGraph(nodes=".toList ++ Text.ofNat graph.files.length ++
    ", edges=".toList ++ Text.ofNat graph.edgePairs.length ++
    ", missing=".toList ++ Text.ofNat graph.missingPairs.length ++
    ", external=".toList ++ Text.ofNat graph.externalPairs.length ++ [')']

/-- The files that the additions of a list mention. -/
theorem mem_mentioned (h : addition ∈ additions) (hfile : file ∈ addition.files) :
    file ∈ mentioned additions :=
  List.mem_flatMap.mpr ⟨addition, h, hfile⟩

/-- A graph has exactly the files that were mentioned. -/
theorem mem_files_ofAdditions :
    file ∈ (ofAdditions additions).files ↔ file ∈ mentioned additions := by
  rw [files_ofAdditions, List.mem_eraseDups]

/-- The depth of a file stays as it was when the file was mentioned. -/
theorem depth?_ofAdditions_append {before after : List Addition} (h : file ∈ mentioned before) :
    (ofAdditions (before ++ after)).depth? file = (ofAdditions before).depth? file := by
  obtain ⟨depth, hdepth⟩ := exists_depth_of_mem (mem_files_ofAdditions.mpr h)
  rw [hdepth, (grows_ofAdditions before after).depth? hdepth]

/-- The first addition to mention a file gives it its depth, whatever is added later. -/
theorem depth?_ofAdditions_first {before after : List Addition} (hfile : file ∈ addition.files)
    (hnew : file ∉ mentioned before) :
    (ofAdditions (before ++ addition :: after)).depth? file =
      addition.depthIn? (ofAdditions (before ++ addition :: after)) file := by
  have hsplit : before ++ addition :: after = (before ++ [addition]) ++ after := by simp
  have hmem : addition ∈ before ++ [addition] := by simp
  have hkept {other : Path} (h : other ∈ addition.files) :
      (ofAdditions (before ++ addition :: after)).depth? other =
        (addition.apply (ofAdditions before)).depth? other := by
    rw [hsplit, depth?_ofAdditions_append (mem_mentioned hmem h), ofAdditions_concat]
  rw [hkept hfile, depth?_apply hfile fun h => hnew (mem_files_ofAdditions.mp h)]
  cases addition with
  | edge source target =>
    rw [Addition.depthIn?, Addition.depthIn?, hkept (by simp [Addition.files])]
  | _ => rfl

/-- An entry that is held was added by the addition that makes it. -/
theorem holds_iff_mem {entry : Entry}
    (h : ∀ other : Addition, other.entry? = some (source, entry) ↔ other = addition) :
    (ofAdditions additions).Holds source entry ↔ addition ∈ additions := by
  rw [holds_ofAdditions]
  exact ⟨fun ⟨other, hmem, hother⟩ => (h other).mp hother ▸ hmem,
    fun hmem => ⟨addition, hmem, (h addition).mpr rfl⟩⟩

/-- Whatever is added to an empty graph, in any order and any number of times, the graph says
exactly what was added. -/
theorem ofAdditions_reflects (additions : List Addition) :
    (ofAdditions additions).Reflects additions := by
  have hsound := sound_ofAdditions additions
  have hfiles := files_ofAdditions additions
  have hmem (file : Path) : file ∈ (ofAdditions additions).files ↔ file ∈ mentioned additions :=
    mem_files_ofAdditions
  have hedges (source target : Path) : (source, target) ∈ (ofAdditions additions).edgePairs ↔
      .edge source target ∈ additions :=
    (mem_edgePairs_iff hsound).trans <| holds_iff_mem fun other => by
      cases other <;> simp [Addition.entry?]
  have hmissing (source : Path) (reference : Text) :
      (source, reference) ∈ (ofAdditions additions).missingPairs ↔
        .missing source reference ∈ additions :=
    (mem_missingPairs_iff hsound).trans <| holds_iff_mem fun other => by
      cases other <;> simp [Addition.entry?]
  have hexternal (source : Path) (reference : Text) :
      (source, reference) ∈ (ofAdditions additions).externalPairs ↔
        .external source reference ∈ additions :=
    (mem_externalPairs_iff hsound).trans <| holds_iff_mem fun other => by
      cases other <;> simp [Addition.entry?]
  have hlength : (ofAdditions additions).nodes.length = (ofAdditions additions).files.length :=
    (List.length_map _).symm
  exact {
    files_eq := hfiles
    files_nodup := hfiles ▸ nodup_eraseDups _
    has_iff := fun file => has_eq_true_iff.trans (hmem file)
    depth_isSome_iff := fun file => by
      rw [← hmem, Option.isSome_iff_exists]
      exact ⟨fun ⟨_, h⟩ => mem_files_of_depth? h, exists_depth_of_mem⟩
    depth_first := by
      rintro before addition after rfl file hfile hnew
      exact depth?_ofAdditions_first hfile hnew
    depth_kept := by
      rintro before after rfl file hfile
      exact depth?_ofAdditions_append hfile
    mem_edgePairs := hedges
    mem_missingPairs := hmissing
    mem_externalPairs := hexternal
    pairs_nodup := ⟨Records.pairs_nodup sort_perm hsound.edges,
      Records.pairs_nodup Text.sort_perm hsound.missing,
      Records.pairs_nodup Text.sort_perm hsound.external⟩
    mem_targets := fun source target => (mem_edgePairs_iff hsound).symm
    mem_sources := fun source target =>
      (mem_sources_iff hsound).trans (mem_edgePairs_iff hsound).symm
    edge_files := fun source target h => by
      have hadded := (hedges source target).mp h
      exact ⟨(hmem source).mpr (mem_mentioned hadded (by simp [Addition.files])),
        (hmem target).mpr (mem_mentioned hadded (by simp [Addition.files]))⟩
    missing_files := fun source reference h => (hmem source).mpr
      (mem_mentioned ((hmissing source reference).mp h) List.mem_cons_self)
    external_files := fun source reference h => (hmem source).mpr
      (mem_mentioned ((hexternal source reference).mp h) List.mem_cons_self)
    nodes_length := by rw [hlength, hfiles]
    summary_eq := summary_eq_lengths _ }

/-- A target that is seen before its source, an import of itself, and repeated additions. -/
example : (ofAdditions [.edge ⟨.root, [['b']]⟩ ⟨.root, [['a']]⟩, .node ⟨.root, [['a']]⟩ 7,
    .edge ⟨.root, [['a']]⟩ ⟨.root, [['a']]⟩, .edge ⟨.root, [['b']]⟩ ⟨.root, [['a']]⟩]).nodes =
      [(⟨.root, [['b']]⟩, 0), (⟨.root, [['a']]⟩, 1)] := by decide

end Graph

end SourceLoom
