import SourceLoom.Pattern.Match

/-!
# YAML: tags

A tag says what a node is. Where none is written, a collection is what it looks like, a scalar in
quotes is a text, and the form of a plain scalar decides: truth values, numbers, dates, nothing,
and the two special keys have forms of their own, and everything else is a text.
-/

namespace SourceLoom.Yaml

namespace Tag

/-- What the tags of the format begin with. -/
def standard : Text := "tag:yaml.org,2002:".toList

/-- Nothing. -/
def null : Text := standard ++ "null".toList

/-- A truth value. -/
def bool : Text := standard ++ "bool".toList

/-- A whole number. -/
def int : Text := standard ++ "int".toList

/-- Any other number. -/
def float : Text := standard ++ "float".toList

/-- Bytes. -/
def binary : Text := standard ++ "binary".toList

/-- A date or a moment. -/
def timestamp : Text := standard ++ "timestamp".toList

/-- A text. -/
def text : Text := standard ++ "str".toList

/-- A list. -/
def list : Text := standard ++ "seq".toList

/-- A table. -/
def table : Text := standard ++ "map".toList

/-- A set. -/
def set : Text := standard ++ "set".toList

/-- A table whose entries have an order. -/
def orderedTable : Text := standard ++ "omap".toList

/-- A list of pairs. -/
def pairs : Text := standard ++ "pairs".toList

/-- The key under which a table takes the entries of others. -/
def merge : Text := standard ++ "merge".toList

/-- The key of the value that stands for a whole table. -/
def value : Text := standard ++ "value".toList

/-- A sign of the format itself, which has no value. -/
def sign : Text := standard ++ "yaml".toList

open Pattern

/-- Characters between two. -/
def between (first last : Char) : CharItem := .range first last

/-- A character of some items. -/
def oneIn (items : List CharItem) : Pattern := .char ⟨false, items, .exact⟩

/-- A decimal digit. -/
def digit : Pattern := oneIn [between '0' '9']

/-- A decimal digit or a low line. -/
def digitOrLine : Pattern := oneIn [between '0' '9', .one '_']

/-- A plus or a minus. -/
def plusOrMinus : Pattern := oneIn [.one '-', .one '+']

/-- One of some words. -/
def words (first : String) (others : List String) : Pattern :=
  oneOf (Pattern.text first.toList) (others.map fun word => Pattern.text word.toList)

/-- Whether a pattern describes a text, up to a line feed that may end it. -/
def describes (p : Pattern) (text : Text) : Bool :=
  (matchAt (sequence [p, .anchor .lastLineEnd]) (.start text)).isSome

/-- A truth value. -/
def boolForm : Pattern :=
  words "yes" ["Yes", "YES", "no", "No", "NO", "true", "True", "TRUE", "false", "False", "FALSE",
    "on", "On", "ON", "off", "Off", "OFF"]

/-- Nothing. -/
def nullForm : Pattern := oneOf (words "~" ["null", "Null", "NULL"]) [.empty]

/-- A colon and a number below sixty. -/
def sixtieths : Pattern :=
  many1 (sequence [Pattern.text [':'], optional (oneIn [between '0' '5']), digit])

/-- A number that does not begin with zero. -/
def plainNumber : Pattern := .seq (oneIn [between '1' '9']) (many digitOrLine)

/-- A whole number: to base two, eight, ten, sixteen or sixty. -/
def intForm : Pattern :=
  .seq (optional plusOrMinus) <| oneOf
    (.seq (Pattern.text "0b".toList) (many1 (oneIn [between '0' '1', .one '_'])))
    [.seq (Pattern.text ['0']) (many1 (oneIn [between '0' '7', .one '_'])),
      .seq plainNumber (optional sixtieths),
      .seq (Pattern.text "0x".toList)
        (many1 (oneIn [between '0' '9', between 'a' 'f', between 'A' 'F', .one '_'])),
      Pattern.text ['0']]

/-- An exponent, whose sign is never left out. -/
def exponent : Pattern :=
  optional (sequence [oneIn [.one 'e', .one 'E'], plusOrMinus, many1 digit])

/-- A number with a point, or one that is infinite or undefined. -/
def floatForm : Pattern :=
  oneOf
    (sequence [optional plusOrMinus, digit, many digitOrLine, Pattern.text ['.'], many digitOrLine,
      exponent])
    [sequence [Pattern.text ['.'], digit, many digitOrLine, exponent],
      sequence [optional plusOrMinus, digit, many digitOrLine, sixtieths, Pattern.text ['.'],
        many digitOrLine],
      .seq (optional plusOrMinus) (words ".inf" [".Inf", ".INF"]),
      words ".nan" [".NaN", ".NAN"]]

/-- One digit or two. -/
def shortNumber : Pattern := .seq digit (optional digit)

/-- Two digits. -/
def pair : Pattern := .seq digit digit

/-- The year, the month and the day, remembered as 1 to 3. -/
def dateForm (part : Pattern) : Pattern :=
  sequence [.group 1 (.seq pair pair), Pattern.text ['-'], .group 2 part, Pattern.text ['-'],
    .group 3 part]

/-- The hour, minute and second after a date, remembered as 4 to 6, and after them a fraction as 7
and the distance from universal time as 8 to 11. -/
def timeForm : Pattern :=
  let blank := oneIn [.one ' ', .one '\t']
  let distance : Pattern := sequence [.group 9 plusOrMinus, .group 10 shortNumber,
    optional (.seq (Pattern.text [':']) (.group 11 pair))]
  sequence [oneOf (oneIn [.one 'T', .one 't']) [many1 blank], .group 4 shortNumber,
    Pattern.text [':'], .group 5 pair, Pattern.text [':'], .group 6 pair,
    optional (.seq (Pattern.text ['.']) (.group 7 (many digit))),
    optional (.seq (many blank) (.group 8 (oneOf (Pattern.text ['Z']) [distance])))]

/-- A date with two digits for the month and the day, or a date with a time. -/
def timestampForm : Pattern := oneOf (dateForm pair) [.seq (dateForm shortNumber) timeForm]

/-- A date, with or without a time. -/
def momentForm : Pattern := .seq (dateForm shortNumber) (optional timeForm)

/-- The forms of plain scalars and their tags; the first form that describes a scalar counts. -/
def forms : List (Pattern × Text) :=
  [(boolForm, bool), (floatForm, float), (intForm, int), (Pattern.text "<<".toList, merge),
    (nullForm, null), (timestampForm, timestamp), (Pattern.text ['='], value),
    (words "!" ["&", "*"], sign)]

/-- The tag of a plain scalar. One that begins with a line feed is a text. -/
def ofPlain (scalar : Text) : Text :=
  match forms.find? fun (form, _) => describes form scalar with
  | some (_, tag) => if scalar.head? = some '\n' then text else tag
  | none => text

end Tag

end SourceLoom.Yaml
