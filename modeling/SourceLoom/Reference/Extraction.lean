import SourceLoom.Pattern.Match
import SourceLoom.Text.Blank

/-!
# References in source text

A reference is the quoted name of another module in a script. References are found without
parsing: every line that is not a comment is searched for the one-line forms of imports and
exports, and the remaining lines, joined again, for the forms that may spread over lines. Each
reference is reported once, where it is first seen.
-/

namespace SourceLoom.Reference

open Pattern

/-- The three quotes. -/
def quotes : List Char := ['\'', '"', '\x60']

/-- The place of a fixed word. -/
def word (w : String) : Pattern := Pattern.text w.toList

/-- Any blanks. -/
def blanks : Pattern := many (char .blank)

/-- At least one blank. -/
def gap : Pattern := many1 (char .blank)

/-- A name made of word characters. -/
def name : Pattern := many1 (char .word)

/-- Anything up to a character, and that character. -/
def upTo (close : Char) : Pattern := seq (many (char (.outside [close]))) (char (.one close))

/-- Braces and what is between them. -/
def braces : Pattern := seq (char (.one '\x7b')) (upTo '\x7d')

/-- A quoted reference; what is between the quotes is remembered as group one. -/
def quotedReference : Pattern :=
  sequence [char (.of quotes), group 1 (many1 (char (.outside quotes))), char (.of quotes)]

/-- The word that comes before a reference, and the reference. -/
def fromReference : Pattern := sequence [word "from", gap, quotedReference]

/-- The call of a loader with a reference. -/
def callWith (loader : String) : Pattern :=
  sequence [word loader, blanks, char (.one '('), blanks, quotedReference, blanks,
    char (.one ')')]

/-- One binding of an import: names in braces, everything under one name, or a name. -/
def binding : Pattern :=
  oneOf braces [sequence [char (.one '*'), gap, word "as", gap, name], name]

/-- The keywords that introduce a variable. -/
def variableKeyword : Pattern := oneOf (word "const") [word "let", word "var"]

/-- A comma and further names, inside braces. -/
def moreNames : Pattern :=
  optional (sequence [char (.one ','), blanks, many (char (.outside ['\x7d']))])

/-- Bindings imported from a reference. -/
def importFrom : Pattern :=
  sequence [word "import", gap,
    optional (sequence [binding, many (sequence [blanks, char (.one ','), blanks, binding]), gap]),
    fromReference]

/-- Types imported from a reference. -/
def importTypesFrom : Pattern :=
  sequence [word "import", gap, word "type", gap, few (char (.outside ['\n'])), gap,
    fromReference]

/-- A variable, or variables in braces or brackets, bound to a loaded module. -/
def boundRequire : Pattern :=
  sequence [variableKeyword, gap, oneOf braces [name, seq (char (.one '[')) (upTo ']')], blanks,
    char (.one '='), blanks, callWith "require"]

/-- A module loaded without being bound: no word and no equals sign comes right before. -/
def freeRequire : Pattern :=
  seq (alt (anchor .textStart) (char ⟨true, [.one '=', .inClass .word false false], .exact⟩))
    (callWith "require")

/-- A module loaded at run time. -/
def importCall : Pattern := callWith "import"

/-- Names exported from a reference. -/
def exportNames : Pattern := sequence [word "export", gap, braces, gap, fromReference]

/-- Types exported from a reference. -/
def exportTypes : Pattern :=
  sequence [word "export", gap, word "type", gap, braces, gap, fromReference]

/-- Everything exported from a reference. -/
def exportAll : Pattern := sequence [word "export", gap, char (.one '*'), gap, fromReference]

/-- Everything exported from a reference under one name. -/
def exportAllAs : Pattern :=
  sequence [word "export", gap, char (.one '*'), gap, word "as", gap, name, gap, fromReference]

/-- The default of a reference exported. -/
def exportDefault : Pattern :=
  sequence [word "export", gap, char (.one '\x7b'), blanks, word "default", blanks, moreNames,
    char (.one '\x7d'), gap, fromReference]

/-- The default of a reference exported under a name. -/
def exportDefaultAs : Pattern :=
  sequence [word "export", gap, char (.one '\x7b'), blanks, word "default", gap, word "as", gap,
    name, blanks, moreNames, char (.one '\x7d'), gap, fromReference]

/-- The forms on one line, in the order in which their references are reported. -/
def lineForms : List Pattern :=
  [importFrom, importTypesFrom, boundRequire, freeRequire, importCall, exportNames, exportTypes,
   exportAll, exportAllAs, exportDefault, exportDefaultAs]

/-- An import for its effect alone. It is sought only on lines without the word `from`. -/
def effectForm : Pattern := sequence [word "import", gap, quotedReference]

/-- Names imported from a reference, over lines. -/
def importNamesOverLines : Pattern :=
  sequence [word "import", blanks, braces, blanks, word "from", blanks, quotedReference]

/-- Variables bound to parts of a loaded module, over lines. -/
def boundRequireOverLines : Pattern :=
  sequence [variableKeyword, blanks, braces, blanks, char (.one '='), blanks, callWith "require"]

/-- A default and names imported from a reference, over lines. -/
def importDefaultOverLines : Pattern :=
  sequence [word "import", gap, name, blanks, char (.one ','), blanks, braces, blanks, word "from",
    blanks, quotedReference]

/-- Names exported from a reference, over lines. -/
def exportNamesOverLines : Pattern :=
  sequence [word "export", blanks, braces, blanks, word "from", blanks, quotedReference]

/-- Types exported from a reference, over lines. -/
def exportTypesOverLines : Pattern :=
  sequence [word "export", gap, word "type", blanks, braces, blanks, word "from", blanks,
    quotedReference]

/-- The forms that may spread over lines, in the order in which their references are reported. -/
def textForms : List Pattern :=
  [importNamesOverLines, boundRequireOverLines, importDefaultOverLines, exportNamesOverLines,
   exportTypesOverLines]

/-- The references that a form finds in a text. -/
def found (form : Pattern) (text : Text) : List Text :=
  (findAll form text).filterMap (·.group? 1)

/-- What a comment line begins with. -/
def commentMarks : List Text := ["//".toList, "/*".toList, "*".toList]

/-- Whether a stripped line begins a comment or goes on with one. -/
def isCommentLine (stripped : Text) : Bool := commentMarks.any (·.isPrefixOf stripped)

/-- Whether a line is searched: it is neither blank nor a comment. -/
def isCodeLine (line : Text) : Bool := Text.strip line ≠ [] && !isCommentLine (Text.strip line)

/-- The references on one stripped line. -/
def onLine (stripped : Text) : List Text :=
  lineForms.flatMap (found · stripped) ++
    if Text.includes " from ".toList stripped then [] else found effectForm stripped

/-- The lines of a text that are searched. -/
def codeLines (text : Text) : List Text := (Text.lines text).filter isCodeLine

/-- The references in lines that are searched, with repetitions. -/
def inCode (lines : List Text) : List Text :=
  lines.flatMap (fun line => onLine (Text.strip line)) ++
    textForms.flatMap (found · (Text.join ['\n'] lines))

/-- The references in a text, each once, in the order in which they are first seen. -/
def extract (text : Text) : List Text := (inCode (codeLines text)).eraseDups

end SourceLoom.Reference
