import SourceLoom.Graph
import SourceLoom.Json.Writer

/-!
# The report of a graph

A graph as JSON: its files with their depths in the order of discovery, its imports, and, if
asked for, the references that led to no file and those that name packages. Paths are shown from
a base directory, with slashes alone.
-/

namespace SourceLoom.Graph

/-- A path as a report shows it. -/
def shownPath (cwd base path : Path) : Text :=
  Text.replaceChar '\\' '/' (path.shownFrom cwd base).toText

/-- A reference in a file. -/
def referenceJson (cwd base : Path) (pair : Path × Text) : Json :=
  .object [("source".toList, .string (shownPath cwd base pair.1)),
    ("reference".toList, .string pair.2)]

/-- The report of a graph. -/
def toJson (cwd base : Path) (withMissing withExternal : Bool) (graph : Graph) : Json :=
  let nodes := graph.nodes.map fun (file, depth) =>
    Json.object [("path".toList, .string (shownPath cwd base file)),
      ("depth".toList, .int depth)]
  let edges := graph.edgePairs.map fun (source, target) =>
    Json.object [("source".toList, .string (shownPath cwd base source)),
      ("target".toList, .string (shownPath cwd base target))]
  let missing := ("missing".toList,
    Json.array (graph.missingPairs.map (referenceJson cwd base)))
  let external := ("external".toList,
    Json.array (graph.externalPairs.map (referenceJson cwd base)))
  .object ([("nodes".toList, .array nodes), ("edges".toList, .array edges)] ++
    (if withMissing then [missing] else []) ++ (if withExternal then [external] else []))

/-- The text of a report, in lines with so many spaces of indentation or on one line. -/
def report (cwd base : Path) (indentation : Option Int) (withMissing withExternal : Bool)
    (graph : Graph) : Text :=
  (graph.toJson cwd base withMissing withExternal).toText
    (match indentation with
    | some spaces => .indented spaces
    | none => .line)

end SourceLoom.Graph
