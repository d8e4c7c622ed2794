import SourceLoom.Path
import SourceLoom.Text.Numeral

/-!
# Import graphs

A graph of the files that import each other. Files come in the order of their discovery, each with
the depth at which it was first met. The references that led to no file, and those that name
packages, are kept by the file that holds them. Every file that anything is recorded for is a node
of the graph.
-/

namespace SourceLoom

/-- Values recorded by file: each file once, in the order in which it first got a value, and each
value once. -/
abbrev Records (α : Type) := List (Path × List α)

namespace Records

variable {α : Type} [DecidableEq α]

/-- The values of a file. -/
def get (records : Records α) (file : Path) : List α := (records.lookup file).getD []

/-- The records with one more value of a file. -/
def add (file : Path) (value : α) : Records α → Records α
  | [] => [(file, [value])]
  | (other, values) :: records =>
    if other = file then
      (other, if value ∈ values then values else values ++ [value]) :: records
    else (other, values) :: add file value records

/-- The number of all values. -/
def count (records : Records α) : Nat := records.foldl (· + ·.2.length) 0

/-- Each file with each of its values, the values of a file in a given order. -/
def pairs (sort : List α → List α) (records : Records α) : List (Path × α) :=
  records.flatMap fun (file, values) => (sort values).map (file, ·)

end Records

/-- A graph of files and their imports. -/
structure Graph where
  /-- The files in the order of their discovery, with their depths. -/
  nodes : List (Path × Int) := []
  /-- The files that a file imports. -/
  edges : Records Path := []
  /-- The local references of a file that led to no file. -/
  missing : Records Text := []
  /-- The references of a file that name packages. -/
  external : Records Text := []
  deriving DecidableEq, Repr

namespace Graph

/-- The files in the order of their discovery. -/
def files (graph : Graph) : List Path := graph.nodes.map (·.1)

/-- Whether a file is in the graph. -/
def has (graph : Graph) (file : Path) : Bool := file ∈ graph.files

/-- The depth of a file. -/
def depth? (graph : Graph) (file : Path) : Option Int := graph.nodes.lookup file

/-- The graph with a file; one that it has keeps its depth. -/
def addNode (graph : Graph) (file : Path) (depth : Int) : Graph :=
  if graph.has file then graph else { graph with nodes := graph.nodes ++ [(file, depth)] }

/-- The graph with an import. A source that is new has depth zero, and a target that is new is
one deeper than its source. -/
def addEdge (graph : Graph) (source target : Path) : Graph :=
  let graph := graph.addNode source 0
  let graph := graph.addNode target ((graph.depth? source).getD 0 + 1)
  { graph with edges := graph.edges.add source target }

/-- The graph with a local reference that led to no file. -/
def addMissing (graph : Graph) (source : Path) (reference : Text) : Graph :=
  let graph := graph.addNode source 0
  { graph with missing := graph.missing.add source reference }

/-- The graph with a reference that names a package. -/
def addExternal (graph : Graph) (source : Path) (reference : Text) : Graph :=
  let graph := graph.addNode source 0
  { graph with external := graph.external.add source reference }

/-- The files that a file imports. -/
def targets (graph : Graph) (source : Path) : List Path := graph.edges.get source

/-- The files that import a file. -/
def sources (graph : Graph) (target : Path) : List Path :=
  (graph.edges.filter fun (_, targets) => target ∈ targets).map (·.1)

/-- All imports, by source and then by target. -/
def edgePairs (graph : Graph) : List (Path × Path) := graph.edges.pairs Path.sort

/-- All local references that led to no file. -/
def missingPairs (graph : Graph) : List (Path × Text) := graph.missing.pairs Text.sort

/-- All references that name packages. -/
def externalPairs (graph : Graph) : List (Path × Text) := graph.external.pairs Text.sort

/-- A line that counts what is in the graph. -/
def summary (graph : Graph) : Text :=
  "ImportGraph(nodes=".toList ++ Text.ofNat graph.nodes.length ++
    ", edges=".toList ++ Text.ofNat graph.edges.count ++
    ", missing=".toList ++ Text.ofNat graph.missing.count ++
    ", external=".toList ++ Text.ofNat graph.external.count ++ [')']

end Graph

end SourceLoom
