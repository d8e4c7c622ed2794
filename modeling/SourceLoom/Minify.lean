import SourceLoom.Json.Reader
import SourceLoom.Json.Writer
import SourceLoom.Minify.Comments
import SourceLoom.Minify.Space
import SourceLoom.Path

/-!
# Minification

A file is made smaller in two steps. First, by the family that its ending tells, its comments are
removed, or it is written anew if it is JSON. Then a level says how far its blanks are removed. The
first step fails for JSON with a whole number of too many digits, and for nothing else. What was
saved is reported as a number of characters and as a percentage.
-/

namespace SourceLoom

namespace Minify

/-- How far blanks are removed. -/
inductive Level where
  /-- Blank lines go. -/
  | light
  /-- Blank lines and the blanks around lines go. -/
  | medium
  /-- Where a file allows it, all blanks that are not needed go. -/
  | aggressive
  deriving DecidableEq, Repr

namespace Level

/-- The levels, the weakest first. -/
def all : List Level := [light, medium, aggressive]

/-- The name of a level. -/
def name : Level → Text
  | light => "light".toList
  | medium => "medium".toList
  | aggressive => "aggressive".toList

/-- The level with a name. -/
def named? (name : Text) : Option Level := all.find? fun level => level.name = name

/-- The level of a name; a name that no level has stands for the medium one. -/
def ofName (name : Text) : Level := (named? name).getD medium

end Level

/-- The families of files that are treated alike. -/
inductive Family where
  /-- Scripts, with line comments and block comments. -/
  | script
  /-- Style sheets, with block comments. -/
  | style
  /-- Markup. -/
  | markup
  /-- JSON. -/
  | data
  /-- Any other file, whose content is kept. -/
  | other
  deriving DecidableEq, Repr

/-- The endings of scripts. -/
def scriptEndings : List Text :=
  [".js".toList, ".jsx".toList, ".ts".toList, ".tsx".toList, ".mjs".toList, ".cjs".toList]

/-- The endings of style sheets. -/
def styleEndings : List Text := [".css".toList, ".scss".toList, ".sass".toList, ".less".toList]

/-- The endings of markup. -/
def markupEndings : List Text := [".html".toList, ".htm".toList, ".xml".toList, ".svg".toList]

/-- The endings of the files in which no blank next to punctuation is needed. -/
def collapsibleEndings : List Text :=
  [".js".toList, ".jsx".toList, ".ts".toList, ".tsx".toList, ".css".toList, ".html".toList]

/-- The ending of a path in lower case. No character beyond ASCII has a letter of one of the
known endings as its lower-case form, so the letters of ASCII alone are changed. -/
def ending (path : Path) : Text := path.suffix.map Char.toLower

/-- The family of an ending. -/
def Family.ofEnding (ending : Text) : Family :=
  if ending ∈ scriptEndings then script
  else if ending ∈ styleEndings then style
  else if ending ∈ markupEndings then markup
  else if ending = ".json".toList then data
  else other

/-- Why a content is not minified. -/
inductive Fault where
  /-- A whole number of JSON has so many digits that it is not read. -/
  | tooManyDigits (count : Nat)
  deriving DecidableEq, Repr

/-- The message of a fault. -/
def Fault.message : Fault → Text
  | tooManyDigits count => Text.digitComplaint count

/-- JSON written anew without blanks. What is no JSON is kept as it is. -/
def rewritten (content : Text) : Except Fault Text :=
  match Json.read Text.digitLimit content with
  | .ok value => .ok (value.toText .compact)
  | .error fault =>
    match fault.cause with
    | .tooManyDigits count => .error (.tooManyDigits count)
    | _ => .ok content

/-- A content without its comments; JSON is written anew. -/
def withoutComments (family : Family) (content : Text) : Except Fault Text :=
  match family with
  | .script => .ok (withoutScriptComments content)
  | .style => .ok (withoutBlockComments content)
  | .markup => .ok (withoutMarkupComments content)
  | .data => rewritten content
  | .other => .ok content

/-- A content without the blanks that a level removes. -/
def withoutBlanks (level : Level) (ending content : Text) : Text :=
  match level with
  | .light => withoutBlankLines content
  | .medium => strippedLines content
  | .aggressive =>
    if ending ∈ collapsibleEndings then collapse (strippedLines content) else strippedLines content

end Minify

/-- The minified content of a file. -/
def minify (content : Text) (path : Path) (level : Minify.Level) : Except Minify.Fault Text :=
  let ending := Minify.ending path
  (Minify.withoutComments (.ofEnding ending) content).map (Minify.withoutBlanks level ending)

/-- What minification saved. -/
structure Savings where
  /-- The number of characters before. -/
  before : Int
  /-- The number of characters after. -/
  after : Int
  deriving DecidableEq, Repr

namespace Savings

/-- The number of characters saved. -/
def reduction (savings : Savings) : Int := savings.before - savings.after

/-- The share of the characters that was saved, in percent and to one decimal place. The quotient,
the percentage and its rounding are each the nearest number of 64 bits. Nothing is saved where
nothing was; there is no percentage if the quotient is beyond all numbers. -/
def percentage? (savings : Savings) : Option Decimal.Binary64 :=
  if savings.before ≤ 0 then some (.zero false)
  else
    let quotient := Decimal.Binary64.ofQuotient (savings.reduction < 0)
      savings.reduction.natAbs savings.before.toNat
    match quotient with
    | .infinite _ => none
    | share => some ((share.times 100).toPlaces 1)

end Savings

end SourceLoom
