import SourceLoom.Text

/-!
# Removing comments

Comments are removed by their marks alone, without regard to what a mark stands in. A line comment
ends before the next line feed; a comment between two marks ends with the first closing mark after
its opening mark, and an opening mark that is never closed is no comment.
-/

namespace SourceLoom.Minify

/-- Removes line comments, which begin with two slashes. Two slashes right after a colon are part
of an address and begin no comment. -/
def dropLineComments : (inComment : Bool) → (previous : Char) → Text → Text
  | _, _, [] => []
  | true, _, c :: rest =>
    if c = '\n' then c :: dropLineComments false c rest else dropLineComments true c rest
  | false, previous, c :: rest =>
    if c = '/' ∧ rest.head? = some '/' ∧ previous ≠ ':' then dropLineComments true c rest
    else c :: dropLineComments false c rest

/-- How many characters a text has up to the end of the first occurrence of a mark. -/
def endOf? (mark : Text) : Text → Option Nat
  | [] => if mark = [] then some 0 else none
  | c :: rest =>
    if mark.isPrefixOf (c :: rest) then some mark.length else (endOf? mark rest).map (· + 1)

/-- Removes what stands between two marks, and the marks; `skip` characters still belong to what
is removed. -/
def dropBetween (opening closing : Text) : (skip : Nat) → Text → Text
  | _, [] => []
  | skip + 1, _ :: rest => dropBetween opening closing skip rest
  | 0, c :: rest =>
    match (Text.dropLeading? opening (c :: rest)).bind (endOf? closing) with
    | some size => dropBetween opening closing (opening.length + size - 1) rest
    | none => c :: dropBetween opening closing 0 rest

/-- Removes line comments from a text. -/
def withoutLineComments (text : Text) : Text := dropLineComments false '\n' text

/-- Removes comments between `/*` and `*/` from a text. -/
def withoutBlockComments (text : Text) : Text := dropBetween "/*".toList "*/".toList 0 text

/-- Removes both kinds of comments from a script, line comments first. -/
def withoutScriptComments (text : Text) : Text := withoutBlockComments (withoutLineComments text)

/-- Removes the comments of markup from a text. -/
def withoutMarkupComments (text : Text) : Text := dropBetween "<!--".toList "-->".toList 0 text

end SourceLoom.Minify
