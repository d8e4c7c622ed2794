import SourceLoom.Graph.Report
import SourceLoom.Proofs.Graph.Building
import SourceLoom.Proofs.Json.Ascii
import SourceLoom.Proofs.Path.Shown

/-!
# What a report tells

The report of a graph tells the whole graph to a reader of JSON who reads every path in the base
directory: the files with their depths in the order of discovery, and the pairs of imports and of
references, each once. The one thing it asks of the files is that their paths have no backslashes,
which a report shows as slashes.
-/

namespace SourceLoom

/-- No name in the path has a backslash. -/
def Path.IsBackslashFree (path : Path) : Prop := ∀ name ∈ path.names, '\\' ∉ name

instance (path : Path) : Decidable path.IsBackslashFree :=
  inferInstanceAs (Decidable (∀ name ∈ path.names, '\\' ∉ name))

namespace Graph

/-- What a report tells. -/
structure Contents where
  /-- The files in their order, with their depths. -/
  nodes : List (Path × Int)
  /-- The imports. -/
  edges : List (Path × Path)
  /-- The references that led to no file, if the report has them. -/
  missing : Option (List (Path × Text))
  /-- The references that name packages, if the report has them. -/
  external : Option (List (Path × Text))
  deriving DecidableEq, Repr

namespace Contents

/-- A text. -/
def text? : Json → Option Text
  | .string text => some text
  | _ => none

/-- A depth. -/
def depth? : Json → Option Int
  | .int depth => some depth
  | _ => none

/-- The path that a text leads to in a base directory. -/
def path? (cwd base : Path) : Json → Option Path
  | .string text => some ((base.child text).absolute cwd)
  | _ => none

/-- Pairs, each given by two members of an object. -/
def pairs? {α β : Type} (first second : String) (readFirst : Json → Option α)
    (readSecond : Json → Option β) : Json → Option (List (α × β))
  | .array items => items.mapM fun item => do
      let value ← readFirst (← item.member? first.toList)
      let other ← readSecond (← item.member? second.toList)
      return (value, other)
  | _ => none

/-- The pairs for references, if there are any. -/
def references? (cwd base : Path) : Option Json → Option (Option (List (Path × Text)))
  | none => some none
  | some json => (pairs? "source" "reference" (path? cwd base) text? json).map some

/-- What a value tells. -/
def ofJson? (cwd base : Path) (json : Json) : Option Contents := do
  let nodes ← (json.member? "nodes".toList).bind (pairs? "path" "depth" (path? cwd base) depth?)
  let edges ← (json.member? "edges".toList).bind
    (pairs? "source" "target" (path? cwd base) (path? cwd base))
  let missing ← references? cwd base (json.member? "missing".toList)
  let external ← references? cwd base (json.member? "external".toList)
  return ⟨nodes, edges, missing, external⟩

/-- What a text of JSON tells. -/
def ofText? (cwd base : Path) (text : Text) : Option Contents :=
  match Json.read none text with
  | .ok json => ofJson? cwd base json
  | .error _ => none

end Contents

/-- Pairs that tell a record: its files are listed, and each of their values has one pair. -/
structure TellsRecords {α : Type} (files : List Path) (records : Records α)
    (pairs : List (Path × α)) : Prop where
  /-- A pair is a file with one of its values. -/
  mem_iff : ∀ file value, (file, value) ∈ pairs ↔ value ∈ records.get file
  /-- No pair comes twice. -/
  nodup : pairs.Nodup
  /-- Every file with a value is listed. -/
  listed : ∀ pair ∈ pairs, pair.1 ∈ files

/-- Contents that tell a graph, with both kinds of references as far as they were asked for. -/
structure Contents.Tell (contents : Contents) (graph : Graph) (withMissing withExternal : Bool) :
    Prop where
  /-- The files come with their depths in the order of discovery. -/
  nodes_eq : contents.nodes = graph.nodes
  /-- No file comes twice. -/
  nodes_nodup : (contents.nodes.map (·.1)).Nodup
  /-- The imports come in the order of the graph. -/
  edges_eq : contents.edges = graph.edgePairs
  /-- They are those of the graph. -/
  edges : TellsRecords (contents.nodes.map (·.1)) graph.edges contents.edges
  /-- Every target is listed too. -/
  targets : ∀ edge ∈ contents.edges, edge.2 ∈ contents.nodes.map (·.1)
  /-- The references that led to no file come if asked for, in the order of the graph. -/
  missing_eq : contents.missing = if withMissing then some graph.missingPairs else none
  /-- They are those of the graph. -/
  missing : ∀ pairs, contents.missing = some pairs →
    TellsRecords (contents.nodes.map (·.1)) graph.missing pairs
  /-- The references that name packages come if asked for, in the order of the graph. -/
  external_eq : contents.external = if withExternal then some graph.externalPairs else none
  /-- They are those of the graph. -/
  external : ∀ pairs, contents.external = some pairs →
    TellsRecords (contents.nodes.map (·.1)) graph.external pairs

/-- What the report of a graph should tell. -/
def contents (withMissing withExternal : Bool) (graph : Graph) : Contents where
  nodes := graph.nodes
  edges := graph.edgePairs
  missing := if withMissing then some graph.missingPairs else none
  external := if withExternal then some graph.externalPairs else none

/-! ### Reading the members of a report -/

section Members

variable {α β : Type}

/-- The path of a file is read from what a report shows. -/
theorem path?_shownPath {file : Path} (hnormal : file.IsNormal) (hslash : file.IsBackslashFree)
    (cwd base : Path) :
    Contents.path? cwd base (.string (shownPath cwd base file)) = some file := by
  have hkept : shownPath cwd base file = (file.shownFrom cwd base).toText := by
    refine Text.replaceChar_of_not_mem (Path.not_mem_toText (by decide) (by decide) ?_) '/'
    exact fun name hname => hslash name (Path.names_shownFrom_subset hnormal cwd base hname)
  rw [hkept, Contents.path?, Path.absolute_child_shownFrom hnormal]

/-- Pairs are read from the objects that are written for them. -/
theorem pairs?_map (first second : String) (readFirst : Json → Option α)
    (readSecond : Json → Option β) (write : α → Json) (writeOther : β → Json)
    (pairs : List (α × β)) (hne : first.toList ≠ second.toList)
    (hfirst : ∀ pair ∈ pairs, readFirst (write pair.1) = some pair.1)
    (hsecond : ∀ pair ∈ pairs, readSecond (writeOther pair.2) = some pair.2) :
    Contents.pairs? first second readFirst readSecond (.array (pairs.map fun pair =>
      .object [(first.toList, write pair.1), (second.toList, writeOther pair.2)])) =
        some pairs := by
  unfold Contents.pairs?
  dsimp only
  induction pairs with
  | nil => rfl
  | cons pair pairs ih =>
    obtain ⟨hpair, hpairs⟩ := List.forall_mem_cons.mp hfirst
    obtain ⟨hother, hothers⟩ := List.forall_mem_cons.mp hsecond
    have hlookup : (second.toList == first.toList) = false := beq_eq_false_iff_ne.mpr (Ne.symm hne)
    rw [List.map_cons, List.mapM_cons, ih hpairs hothers]
    simp [Json.member?, List.lookup_cons, hlookup, hpair, hother]

/-- References are read from the objects that are written for them, if the paths are. -/
theorem references?_map {cwd base : Path} (pairs : List (Path × Text))
    (hpath : ∀ pair ∈ pairs,
      Contents.path? cwd base (.string (shownPath cwd base pair.1)) = some pair.1) :
    Contents.references? cwd base (some (.array (pairs.map (referenceJson cwd base)))) =
      some (some pairs) := by
  have hpairs := pairs?_map "source" "reference" (Contents.path? cwd base) Contents.text?
    (fun file => .string (shownPath cwd base file)) .string pairs (by decide) hpath fun _ _ => rfl
  exact congrArg (Option.map some) hpairs

/-- The objects that are written for pairs are exact. -/
theorem isExact_map (first second : String) (hne : first.toList ≠ second.toList)
    {write : α → Json} {writeOther : β → Json} (hfirst : ∀ value, (write value).IsExact none)
    (hsecond : ∀ value, (writeOther value).IsExact none) (pairs : List (α × β)) :
    (Json.array (pairs.map fun pair =>
      .object [(first.toList, write pair.1), (second.toList, writeOther pair.2)])).IsExact none := by
  refine .array fun item hitem => ?_
  obtain ⟨pair, -, rfl⟩ := List.mem_map.mp hitem
  refine .object (by simpa using hne) ?_
  exact List.forall_mem_cons.mpr ⟨hfirst pair.1, List.forall_mem_singleton.mpr (hsecond pair.2)⟩

end Members

/-- The value of a report is exact. -/
theorem isExact_toJson (cwd base : Path) (withMissing withExternal : Bool) (graph : Graph) :
    (graph.toJson cwd base withMissing withExternal).IsExact none := by
  have hnodes := isExact_map "path" "depth" (by decide)
    (fun file => .string (shownPath cwd base file))
    (fun depth => (.int rfl : (Json.int depth).IsExact none)) graph.nodes
  have hedges := isExact_map "source" "target" (by decide)
    (fun file => .string (shownPath cwd base file))
    (fun file => .string (shownPath cwd base file)) graph.edgePairs
  have hreferences := isExact_map "source" "reference" (by decide)
    (fun file => .string (shownPath cwd base file)) (fun text => .string text)
  refine .object ?_ fun member hmember => ?_
  · cases withMissing <;> cases withExternal
    · exact (by decide : ["nodes".toList, "edges".toList].Nodup)
    · exact (by decide : ["nodes".toList, "edges".toList, "external".toList].Nodup)
    · exact (by decide : ["nodes".toList, "edges".toList, "missing".toList].Nodup)
    · exact (by decide :
        ["nodes".toList, "edges".toList, "missing".toList, "external".toList].Nodup)
  · simp only [List.mem_append, List.mem_cons, List.not_mem_nil, or_false] at hmember
    rcases hmember with ((rfl | rfl) | hmissing) | hexternal
    · exact hnodes
    · exact hedges
    · cases withMissing with
      | false => cases hmissing
      | true =>
        rw [List.mem_singleton.mp hmissing]
        exact hreferences graph.missingPairs
    · cases withExternal with
      | false => cases hexternal
      | true =>
        rw [List.mem_singleton.mp hexternal]
        exact hreferences graph.externalPairs

/-- Whatever its indentation, a report is written in a layout that adds nothing but space. -/
theorem exists_layout (cwd base : Path) (indentation : Option Int)
    (withMissing withExternal : Bool) (graph : Graph) :
    ∃ layout : Json.Layout, layout.IsSpaced ∧ layout.asciiOnly = true ∧
      graph.report cwd base indentation withMissing withExternal =
        (graph.toJson cwd base withMissing withExternal).toText layout := by
  cases indentation with
  | none => exact ⟨.line, Json.Layout.isSpaced_line, rfl, rfl⟩
  | some spaces => exact ⟨.indented spaces, Json.Layout.isSpaced_indented spaces, rfl, rfl⟩

/-- The value of a report is read as what it should tell, if the paths in it are read and all of
them are of listed files. -/
theorem ofJson?_toJson {cwd base : Path} {graph : Graph}
    (hpath : ∀ file ∈ graph.files,
      Contents.path? cwd base (.string (shownPath cwd base file)) = some file)
    (htell : (graph.contents true true).Tell graph true true) (withMissing withExternal : Bool) :
    Contents.ofJson? cwd base (graph.toJson cwd base withMissing withExternal) =
      some (graph.contents withMissing withExternal) := by
  have hnodes := pairs?_map "path" "depth" (Contents.path? cwd base) Contents.depth?
    (fun file => .string (shownPath cwd base file)) .int graph.nodes (by decide)
    (fun node hnode => hpath _ (List.mem_map_of_mem hnode)) fun _ _ => rfl
  have hedges := pairs?_map "source" "target" (Contents.path? cwd base) (Contents.path? cwd base)
    (fun file => .string (shownPath cwd base file))
    (fun file => .string (shownPath cwd base file)) graph.edgePairs (by decide)
    (fun edge hedge => hpath _ (htell.edges.listed edge hedge))
    fun edge hedge => hpath _ (htell.targets edge hedge)
  have hnodesRead : ((graph.toJson cwd base withMissing withExternal).member?
      "nodes".toList).bind (Contents.pairs? "path" "depth" (Contents.path? cwd base)
        Contents.depth?) = some graph.nodes := hnodes
  have hedgesRead : ((graph.toJson cwd base withMissing withExternal).member?
      "edges".toList).bind (Contents.pairs? "source" "target" (Contents.path? cwd base)
        (Contents.path? cwd base)) = some graph.edgePairs := hedges
  have hmissingRead : Contents.references? cwd base
      ((graph.toJson cwd base withMissing withExternal).member? "missing".toList) =
        some (if withMissing then some graph.missingPairs else none) := by
    cases withMissing with
    | false => cases withExternal <;> rfl
    | true =>
      exact references?_map graph.missingPairs fun pair hpair =>
        hpath _ ((htell.missing _ rfl).listed pair hpair)
  have hexternalRead : Contents.references? cwd base
      ((graph.toJson cwd base withMissing withExternal).member? "external".toList) =
        some (if withExternal then some graph.externalPairs else none) := by
    cases withExternal with
    | false => cases withMissing <;> rfl
    | true =>
      have hread := references?_map graph.externalPairs fun pair hpair =>
        hpath _ ((htell.external _ rfl).listed pair hpair)
      cases withMissing <;> exact hread
  rw [Contents.ofJson?, hnodesRead, hedgesRead, hmissingRead, hexternalRead]
  rfl

/-! ### Reports of graphs that were built -/

/-- The pairs of a sound record tell it, if its files are listed. -/
theorem tellsRecords_pairs {α : Type} {sort : List α → List α}
    (hsort : ∀ values, (sort values).Perm values) {records : Records α} (h : records.Sound)
    {files : List Path} (hfiles : ∀ file value, value ∈ records.get file → file ∈ files) :
    TellsRecords files records (records.pairs sort) where
  mem_iff _ _ := Records.mem_pairs_iff hsort h
  nodup := Records.pairs_nodup hsort h
  listed pair hpair := hfiles pair.1 pair.2 ((Records.mem_pairs_iff hsort h).mp hpair)

variable {additions : List Addition} {source : Path}

/-- Whatever a graph holds for a file, the file is in it. -/
theorem mem_files_of_holds {entry : Entry} (h : (ofAdditions additions).Holds source entry) :
    source ∈ (ofAdditions additions).files := by
  obtain ⟨addition, hmem, hentry⟩ := holds_ofAdditions.mp h
  refine mem_files_ofAdditions.mpr (mem_mentioned hmem ?_)
  cases addition with
  | node file depth => cases hentry
  | edge file other | missing file other | external file other =>
    obtain ⟨rfl, -⟩ := Prod.mk.inj (Option.some_inj.mp hentry)
    exact List.mem_cons_self

/-- The target of an import is in the graph. -/
theorem target_mem_files {target : Path}
    (h : (ofAdditions additions).Holds source (.target target)) :
    target ∈ (ofAdditions additions).files := by
  obtain ⟨addition, hmem, hentry⟩ := holds_ofAdditions.mp h
  refine mem_files_ofAdditions.mpr (mem_mentioned hmem ?_)
  cases addition with
  | edge file other =>
    obtain ⟨-, hother⟩ := Prod.mk.inj (Option.some_inj.mp hentry)
    cases hother
    exact List.mem_cons_of_mem _ List.mem_cons_self
  | _ => cases hentry

/-- The lists of a graph that was built tell it. -/
theorem tell_contents (additions : List Addition) (withMissing withExternal : Bool) :
    ((ofAdditions additions).contents withMissing withExternal).Tell (ofAdditions additions)
      withMissing withExternal := by
  have hsound := sound_ofAdditions additions
  have hfiles : (ofAdditions additions).files.Nodup :=
    files_ofAdditions additions ▸ nodup_eraseDups _
  have hedges := tellsRecords_pairs sort_perm hsound.edges
    fun file target (h : (ofAdditions additions).Holds file (.target target)) =>
      mem_files_of_holds h
  have hmissing := tellsRecords_pairs Text.sort_perm hsound.missing
    fun file reference (h : (ofAdditions additions).Holds file (.missing reference)) =>
      mem_files_of_holds h
  have hexternal := tellsRecords_pairs Text.sort_perm hsound.external
    fun file reference (h : (ofAdditions additions).Holds file (.external reference)) =>
      mem_files_of_holds h
  exact {
    nodes_eq := rfl
    nodes_nodup := hfiles
    edges_eq := rfl
    edges := hedges
    targets := fun edge hedge => target_mem_files ((mem_edgePairs_iff hsound).mp hedge)
    missing_eq := rfl
    missing := fun pairs h => by
      cases withMissing with
      | false => cases h
      | true => exact Option.some_inj.mp h ▸ hmissing
    external_eq := rfl
    external := fun pairs h => by
      cases withExternal with
      | false => cases h
      | true => exact Option.some_inj.mp h ▸ hexternal }

/-- A report is a text of ASCII alone, and it is JSON that tells the whole graph when its paths are
read in the base directory: for every graph whose files have normal paths without backslashes, every
base directory, every indentation, and whatever the references are. -/
theorem report_tells (cwd base : Path) (indentation : Option Int)
    (withMissing withExternal : Bool) (additions : List Addition)
    (hnormal : ∀ file ∈ (ofAdditions additions).files, file.IsNormal)
    (hslash : ∀ file ∈ (ofAdditions additions).files, file.IsBackslashFree) :
    ((ofAdditions additions).report cwd base indentation withMissing withExternal).IsAscii ∧
      ∃ contents, Contents.ofText? cwd base
          ((ofAdditions additions).report cwd base indentation withMissing withExternal) =
            some contents ∧
        contents.Tell (ofAdditions additions) withMissing withExternal := by
  have hpath : ∀ file ∈ (ofAdditions additions).files,
      Contents.path? cwd base (.string (shownPath cwd base file)) = some file :=
    fun file hfile => path?_shownPath (hnormal file hfile) (hslash file hfile) cwd base
  have hexact := isExact_toJson cwd base withMissing withExternal (ofAdditions additions)
  obtain ⟨layout, hspaced, hascii, hreport⟩ := exists_layout cwd base indentation withMissing
    withExternal (ofAdditions additions)
  have hread : Contents.ofText? cwd base
      ((ofAdditions additions).report cwd base indentation withMissing withExternal) =
        some ((ofAdditions additions).contents withMissing withExternal) := by
    rw [hreport, Contents.ofText?, Json.read_toText hspaced hexact]
    exact ofJson?_toJson hpath (tell_contents additions true true) withMissing withExternal
  refine ⟨?_, _, hread, tell_contents additions withMissing withExternal⟩
  rw [hreport]
  exact Json.isAscii_toText (hspaced.isAscii hascii) hexact

/-- Imports among a directory, a file in it, a file outside it and a path with two slashes, and
references with a quote, a backslash, a control character and a character beyond U+FFFF. -/
def scattered : List Addition :=
  [.edge ⟨.root, ["w".toList, "a.js".toList]⟩ ⟨.root, ["lib".toList, "b.js".toList]⟩,
   .edge ⟨.doubleRoot, ["w".toList]⟩ ⟨.root, ["w".toList]⟩,
   .missing ⟨.root, ["w".toList, "a.js".toList]⟩ ['.', '/', '"', '\\'],
   .external ⟨.root, ["w".toList]⟩ [Char.ofNat 0x1F, Char.ofNat 0x1F600]]

/-- The report of such a graph, from a directory with double dots, tells all of it. -/
theorem report_tells_scattered :
    ∃ contents, Contents.ofText? .root ⟨.root, ["x".toList, Path.dotDot, "w".toList]⟩
        ((ofAdditions scattered).report .root ⟨.root, ["x".toList, Path.dotDot, "w".toList]⟩
          (some 2) true true) = some contents ∧
      contents.nodes = [(⟨.root, ["w".toList, "a.js".toList]⟩, 0),
        (⟨.root, ["lib".toList, "b.js".toList]⟩, 1), (⟨.doubleRoot, ["w".toList]⟩, 0),
        (⟨.root, ["w".toList]⟩, 1)] ∧
      contents.external =
        some [(⟨.root, ["w".toList]⟩, [Char.ofNat 0x1F, Char.ofNat 0x1F600])] := by
  obtain ⟨-, contents, hread, htell⟩ :=
    report_tells .root ⟨.root, ["x".toList, Path.dotDot, "w".toList]⟩ (some 2) true true scattered
      (by decide +kernel) (by decide +kernel)
  exact ⟨contents, hread, htell.nodes_eq.trans (by decide +kernel),
    htell.external_eq.trans (by decide +kernel)⟩

end Graph

end SourceLoom
