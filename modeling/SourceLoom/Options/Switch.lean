import SourceLoom.Text

/-!
# Switches

A switch is what a word of the command line can turn on, off or set. It has one or more spellings,
short ones with one hyphen and long ones with two, and it takes a number of values that is part of
what it is.
-/

namespace SourceLoom.Options

/-- How many values a switch takes. -/
inductive Arity where
  /-- No value. -/
  | none
  /-- Exactly one value. -/
  | one
  /-- One value, or none. -/
  | optional
  /-- One value or more. -/
  | many
  deriving DecidableEq, Repr

/-- The switches. -/
inductive Switch where
  /-- Shows what the switches are. -/
  | help
  /-- The directory to scan. -/
  | directory
  /-- The entries whose imports are followed. -/
  | entries
  /-- How far imports are followed. -/
  | depth
  /-- The file of settings. -/
  | settings
  /-- The pattern for the names of files. -/
  | pattern
  /-- The pattern for the paths that are ignored. -/
  | ignored
  /-- The file that is written. -/
  | output
  /-- The text at the end of the document. -/
  | prompt
  /-- Whether the project is drawn. -/
  | drawing
  /-- The style of drawings. -/
  | style
  /-- Whether files have banners. -/
  | headers
  /-- How far files are minified. -/
  | minify
  /-- That files are not minified. -/
  | verbatim
  /-- That what was saved is shown. -/
  | statistics
  /-- The file that the graph of imports is written to. -/
  | graph
  /-- That more is reported. -/
  | verbose
  /-- That only errors are reported. -/
  | quiet
  /-- Shows the version. -/
  | version
  deriving DecidableEq, Repr

namespace Switch

/-- The switches in the order in which they are listed. -/
def all : List Switch :=
  [help, directory, entries, depth, settings, pattern, ignored, output, prompt, drawing, style,
   headers, minify, verbatim, statistics, graph, verbose, quiet, version]

/-- The spellings of a switch. -/
def spellings (switch : Switch) : List Text :=
  (match switch with
  | help => ["-h", "--help"]
  | directory => ["-d", "--directory"]
  | entries => ["-f", "--follow-imports"]
  | depth => ["--max-depth"]
  | settings => ["--config"]
  | pattern => ["-r", "--regex"]
  | ignored => ["-ir", "--ignoreregex", "--ignore-regex"]
  | output => ["-o", "--output"]
  | prompt => ["-p", "--prompt"]
  | drawing => ["-t", "--tree", "--no-tree"]
  | style => ["--tree-style"]
  | headers => ["--headers", "--no-headers"]
  | minify => ["-m", "--minify"]
  | verbatim => ["--no-minify"]
  | statistics => ["--stats"]
  | graph => ["--graph-json"]
  | verbose => ["-v", "--verbose"]
  | quiet => ["-q", "--quiet"]
  | version => ["--version"]).map String.toList

/-- How many values a switch takes. -/
def arity : Switch → Arity
  | directory | depth | settings | pattern | ignored | output | prompt | style | graph => .one
  | entries => .many
  | minify => .optional
  | help | drawing | headers | verbatim | statistics | verbose | quiet | version => .none

/-- The name of a switch in messages: all its spellings. -/
def name (switch : Switch) : Text := Text.join ['/'] switch.spellings

/-- Every spelling with its switch, in the order in which they are listed. -/
def forms : List (Text × Switch) :=
  all.flatMap fun switch => switch.spellings.map fun spelling => (spelling, switch)

/-- The switch with a spelling. -/
def ofSpelling? (spelling : Text) : Option Switch := forms.lookup spelling

end Switch

/-- Whether a spelling has one hyphen only. -/
def isShort (spelling : Text) : Bool := spelling[1]? ≠ some '-'

/-- Whether a spelling turns its switch off. -/
def isNegation (spelling : Text) : Bool := "--no-".toList.isPrefixOf spelling

end SourceLoom.Options
