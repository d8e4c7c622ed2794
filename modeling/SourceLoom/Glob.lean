import SourceLoom.Text

/-!
# Name patterns

A name pattern matches whole names. A star stands for any piece of a name, a question mark for
one character, and brackets for one character of a set, which an exclamation mark negates. Between
two stars only the first place that fits need be tried, because every place leaves the rest of the
pattern the longest remainder to fit in.
-/

namespace SourceLoom

namespace Glob

/-- A part of a pattern that stands for exactly one character. -/
inductive Part where
  /-- Any character. -/
  | any
  /-- A fixed character. -/
  | one (c : Char)
  /-- A character in one of the ranges, or in none of them. -/
  | set (negated : Bool) (ranges : List (Char × Char))
  deriving DecidableEq, Repr

/-- Whether a part stands for a character. -/
def Part.fits : Part → Char → Bool
  | any, _ => true
  | one d, c => c = d
  | set negated ranges, c =>
    (ranges.any fun range => range.1.toNat ≤ c.toNat && c.toNat ≤ range.2.toNat) != negated

/-- The inside of brackets cut at the hyphens that join two ends of a range. The first character
is never such a hyphen, nor is one of the two characters after a hyphen that is. -/
def chunks : (keep : Nat) → (chunk : Text) → Text → List Text
  | _, chunk, [] => [chunk.reverse]
  | keep + 1, chunk, c :: rest => chunks keep (c :: chunk) rest
  | 0, chunk, c :: rest =>
    if c = '-' then
      if rest = [] then [(c :: chunk).reverse] else chunk.reverse :: chunks 2 [] rest
    else chunks 0 (c :: chunk) rest

/-- Chunks without the ranges whose ends are in the wrong order: both ends disappear. -/
def dropEmptyRanges : List Text → List Text
  | [] => []
  | chunk :: rest =>
    match dropEmptyRanges rest with
    | [] => [chunk]
    | next :: more =>
      match chunk.getLast?, next with
      | some last, first :: others =>
        if first.toNat < last.toNat then (chunk.dropLast ++ others) :: more
        else chunk :: next :: more
      | _, _ => chunk :: next :: more

/-- The ranges of chunks: each hyphen between two chunks joins its neighbours, and every other
character is a range of its own. `low` is the lower end of a range that has begun. -/
def ranges : (low : Option Char) → List Text → List (Char × Char)
  | _, [] => []
  | low, chunk :: rest =>
    let (joined, chunk) := match low, chunk with
      | some low, high :: others => ([(low, high)], others)
      | _, chunk => ([], chunk)
    if rest = [] then joined ++ chunk.map fun c => (c, c)
    else joined ++ (chunk.dropLast.map fun c => (c, c)) ++ ranges chunk.getLast? rest

/-- The part that brackets with this inside stand for. -/
def bracketPart (inside : Text) : Part :=
  let keep := if inside.head? = some '!' then 2 else 1
  match dropEmptyRanges (chunks keep [] inside) with
  | ('!' :: chunk) :: rest => .set true (ranges none (chunk :: rest))
  | chunks => .set false (ranges none chunks)

/-- The inside of brackets after the opening one, if there is a closing one, and what follows. A
closing bracket that comes first, or right after an exclamation mark, belongs to the inside. -/
def insideBrackets? (text : Text) : Option (Text × Text) :=
  let (start, rest) := match text with
    | '!' :: ']' :: rest => (['!', ']'], rest)
    | '!' :: rest => (['!'], rest)
    | ']' :: rest => ([']'], rest)
    | rest => ([], rest)
  match rest.dropWhile (· ≠ ']') with
  | [] => none
  | _ :: after => some (start ++ rest.takeWhile (· ≠ ']'), after)

/-- The runs of parts between the stars of a pattern; there is one more run than there are stars.
`skip` characters still belong to the brackets before. -/
def runsFrom : (skip : Nat) → Text → List (List Part)
  | _, [] => [[]]
  | skip + 1, _ :: rest => runsFrom skip rest
  | 0, c :: rest =>
    if c = '*' then [] :: runsFrom 0 rest
    else if c = '?' then (runsFrom 0 rest).modifyHead (.any :: ·)
    else if c = '[' then
      match insideBrackets? rest with
      | some (inside, after) =>
        (runsFrom (rest.length - after.length) rest).modifyHead (bracketPart inside :: ·)
      | none => (runsFrom 0 rest).modifyHead (.one '[' :: ·)
    else (runsFrom 0 rest).modifyHead (.one c :: ·)

/-- What follows a run of parts at the beginning of a text, if it fits there. -/
def after? : List Part → Text → Option Text
  | [], text => some text
  | _ :: _, [] => none
  | part :: parts, c :: text => if part.fits c then after? parts text else none

/-- What follows a run of parts at the first place where it fits. -/
def afterFirst? (run : List Part) : Text → Option Text
  | [] => after? run []
  | c :: text =>
    match after? run (c :: text) with
    | some rest => some rest
    | none => afterFirst? run text

/-- Whether what comes after a star fits a text: the last run at its end, and those before it one
after the other. -/
def fitsAfterStar : List (List Part) → Text → Bool
  | [], _ => true
  | [last], text =>
    last.length ≤ text.length && after? last (text.drop (text.length - last.length)) = some []
  | run :: runs, text =>
    match afterFirst? run text with
    | some rest => fitsAfterStar runs rest
    | none => false

/-- Whether a pattern matches a name. -/
def fits (pattern name : Text) : Bool :=
  match runsFrom 0 pattern with
  | [] => false
  | [only] => after? only name = some []
  | first :: runs =>
    match after? first name with
    | some rest => fitsAfterStar runs rest
    | none => false

end Glob

end SourceLoom
