import SourceLoom.Document
import SourceLoom.Options
import SourceLoom.Survey
import SourceLoom.Traversal

/-!
# Notices

What a run says while it works, one line after the other: how far it is, what it takes note of,
and why it fails. The options say which notices are shown.
-/

namespace SourceLoom.Run

/-- How much a note matters, the least first. -/
inductive Severity where
  | debug
  | info
  | warning
  deriving DecidableEq, Repr

/-- The name of a severity. -/
def Severity.name : Severity → Text
  | debug => "DEBUG".toList
  | info => "INFO".toList
  | warning => "WARNING".toList

/-- Whether notes of a severity are shown when more was asked for so many times. -/
def Severity.isShownAt (verbosity : Nat) : Severity → Bool
  | debug => 2 ≤ verbosity
  | info => 1 ≤ verbosity
  | warning => true

/-- What a run says. -/
inductive Notice where
  /-- How far it is. -/
  | progress (message : Text)
  /-- What it takes note of. -/
  | note (severity : Severity) (message : Text)
  /-- Why it fails. -/
  | failure (message : Text)
  deriving DecidableEq, Repr

namespace Notice

/-- Whether a notice is shown. A failure always is. -/
def isShown (options : Options) : Notice → Bool
  | progress _ => !options.quiet
  | note severity _ => !options.quiet && severity.isShownAt options.verbosity
  | failure _ => true

/-- The text of a notice. -/
def toText : Notice → Text
  | progress message => message
  | note severity message => severity.name ++ ": ".toList ++ message
  | failure message => message

/-- The notices on following imports. -/
def ofTraversal : Traversal.Event → List Notice
  | .rootSought entry root =>
    [note .debug ("Project root for ".toList ++ entry.toText ++ ": ".toList ++
      (root.map Path.toText).getD "None".toList)]
  | .reached file depth =>
    let start := "Processing (depth ".toList ++ Text.ofNat depth ++ "): ".toList
    [note .debug (start ++ file.toText), progress (start ++ file.name)]
  | .unresolved reference file =>
    [note .debug ("Unresolved reference '".toList ++ reference ++ "' in ".toList ++ file.toText)]
  | .warned warning => [note .warning warning.message]

/-- The notice on what a survey passes over. -/
def ofSurvey (event : Survey.Event) : Notice := note .debug event.message

/-- The notice on the weaving of a document. -/
def ofDocument : Document.Event → Notice
  | .skipped file fault =>
    note .warning ("Skipping unreadable file ".toList ++ file.toText ++ ": ".toList ++
      fault.message)
  | .minified file level before after =>
    note .debug ("Minified ".toList ++ file.toText ++ " (".toList ++ level.name ++
      "): ".toList ++ Text.ofNat before ++ " -> ".toList ++ Text.ofNat after ++ " chars".toList)
  | .woven file => note .debug ("Woven: ".toList ++ file.toText)

end Notice

end SourceLoom.Run
