import SourceLoom.Options.Switch

/-!
# Help on the command line

What the program says about itself: its name, its version, and what each switch is for.
-/

namespace SourceLoom.Options

/-- The name of the program. -/
def programName : Text := "fileweaver".toList

/-- The version of the program. -/
def programVersion : Text := "1.4.1".toList

/-- What a switch is for. -/
def Switch.purpose (switch : Switch) : Text :=
  (match switch with
  | help => "show what the switches are"
  | directory => "the directory to scan; usually the working directory"
  | entries => "follow the imports of these files instead of scanning a directory"
  | depth => "the most imports from an entry to a file; usually there is no bound"
  | settings => "a file of settings in YAML, TOML or JSON"
  | pattern => "take files only if this pattern occurs in their names"
  | ignored => "leave out files if this pattern occurs in their paths"
  | output => "the file to write; usually output.txt"
  | prompt => "a text at the end of the document"
  | drawing => "draw the project; usually it is drawn"
  | style => "draw with lines (tree) or with ASCII alone (ascii)"
  | headers => "put a banner before each file; usually there is one"
  | minify => "minify files: light, medium or aggressive"
  | verbatim => "keep files as they are"
  | statistics => "show what minification saved"
  | graph => "write the graph of imports to this file"
  | verbose => "report more; twice for still more"
  | quiet => "report errors only"
  | version => "show the version").toList

/-- The line about a switch. -/
def Switch.helpLine (switch : Switch) : Text :=
  "  ".toList ++ Text.join ", ".toList switch.spellings ++ ": ".toList ++ switch.purpose ++ ['\n']

/-- What is shown about all switches. -/
def helpText : Text :=
  "usage: ".toList ++ programName ++ " [switches]\n\n".toList ++ Switch.all.flatMap Switch.helpLine

/-- What is shown about the version. -/
def versionText : Text := programName ++ ' ' :: programVersion ++ ['\n']

end SourceLoom.Options
