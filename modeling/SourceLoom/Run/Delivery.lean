import SourceLoom.Graph.Report
import SourceLoom.Run.Selection

/-!
# Delivery

What a run leaves behind: the document, the report of the graph if it was asked for, and closing
words on what was done. The document is written first, so that it stays where the report cannot
be written.
-/

namespace SourceLoom.Run

variable {m : Type → Type} [Monad m]

/-- Writes a text to a file. What stands in the way is said after some words, also where writing
fails after the file was opened. -/
def put (host : Host m) (options : Options) (complaint : Text) (path : Path) (text : Text) :
    ExceptT Interruption m Unit := do
  match ← (host.files.write path (Utf8.encode text)).run with
  | .ok none => return
  | .ok (some shortage) =>
    host.fail options (complaint ++ ": ".toList ++ shortage.message)
  | .error .nullInPath => throw (.broken (.files .nullInPath))
  | .error fault => host.fail options (complaint ++ ": ".toList ++ fault.message)

/-- Writes the report of the graph where it was asked for. -/
def putGraph (host : Host m) (options : Options) (selection : Selection) :
    ExceptT Interruption m Unit :=
  match options.graph, selection.session with
  | none, _ | some [], _ => pure ()
  | some _, none =>
    host.say options
      (.note .warning "--graph-json only applies when following imports; ignored".toList)
  | some file, some session =>
    put host options "Error writing graph".toList (.ofText file)
      (session.graph.report host.cwd selection.base (some 2) true true)

/-- The words on what was saved. -/
def savingsWords (savings : Savings) : List Text :=
  ["\nCompression Statistics:".toList,
   "Original size: ".toList ++ Text.grouped savings.before ++ " bytes".toList,
   "Minified size: ".toList ++ Text.grouped savings.after ++ " bytes".toList,
   "Reduction: ".toList ++ Text.grouped savings.reduction ++ " bytes (".toList ++
     (savings.percentage?.map (·.toText Json.numberLayout)).getD [] ++ "%)".toList]

/-- The words on how the files were found. -/
def originWords (options : Options) (selection : Selection) : Text :=
  match selection.session, options.entries with
  | some _, some entries =>
    "Following imports from ".toList ++ counted entries.length "entry file" ++ ": ".toList ++
      Text.join ", ".toList (entries.map fun entry => (Path.ofText entry).name) ++ " (".toList ++
      (match options.depth with
      | some depth => "max depth: ".toList ++ Text.ofNat depth
      | none => "unlimited depth".toList) ++ [')']
  | _, _ => "Directory scan".toList

/-- The closing words of a run. -/
def closingWords (options : Options) (output : Path) (selection : Selection)
    (woven : Document.Woven) : List Text :=
  (if options.statistics ∧ options.level.isSome ∧ 0 < woven.savings.before then
    savingsWords woven.savings
  else []) ++
  ["Successfully processed ".toList ++ counted woven.files.length "file" ++
    " and saved to ".toList ++ output.toText ++ " (".toList ++ originWords options selection ++
    [')']]

/-- Writes what a run leaves behind. -/
def deliver (host : Host m) (options : Options) (selection : Selection)
    (woven : Document.Woven) : ExceptT Interruption m Unit := do
  let output ← outputPath host options
  put host options "Error writing output".toList output woven.text
  putGraph host options selection
  host.sayAll options ((closingWords options output selection woven).map .progress)

end SourceLoom.Run
