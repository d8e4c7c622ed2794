import SourceLoom.Pattern.CharSet

/-!
# Patterns

A pattern describes pieces of text. It may describe one piece in several ways, and the ways are
ordered: an alternative prefers its first branch, a greedy repetition one more round, a lazy one
no further round. The list of all ways from a place is the meaning of a pattern; what a search
finds is the first of them.
-/

namespace SourceLoom

namespace Pattern

/-- A condition on a place between two characters. -/
inductive Anchor where
  /-- The beginning of the text. -/
  | textStart
  /-- The beginning of a line. -/
  | lineStart
  /-- The end of the text. -/
  | textEnd
  /-- The end of a line. -/
  | lineEnd
  /-- The end of the text, or before a line feed that ends it. -/
  | lastLineEnd
  /-- Between a word character and none, or not so; in ASCII or altogether. -/
  | wordEdge (negated ascii : Bool)
  deriving DecidableEq, Repr

end Pattern

/-- A pattern. -/
inductive Pattern where
  /-- The empty piece. -/
  | empty
  /-- One character of a set. -/
  | char (set : Pattern.CharSet)
  /-- The empty piece at a certain place. -/
  | anchor (place : Pattern.Anchor)
  /-- A piece of the first, then a piece of the second. -/
  | seq (first second : Pattern)
  /-- A piece of the first or else of the second. -/
  | alt (first second : Pattern)
  /-- At least and at most so many pieces in a row. -/
  | loop (greedy : Bool) (least : Nat) (most : Option Nat) (body : Pattern)
  /-- A piece that is remembered under a number. -/
  | group (index : Nat) (body : Pattern)
  /-- Only the preferred piece from a place. -/
  | atomic (body : Pattern)
  /-- The empty piece where a piece follows, or where none does. -/
  | ahead (negated : Bool) (body : Pattern)
  /-- The empty piece where a piece of so many characters precedes, or where none does. -/
  | behind (negated : Bool) (width : Nat) (body : Pattern)
  /-- The piece remembered under a number once more. -/
  | again (rule : Pattern.CaseRule) (index : Nat)
  /-- The first if something is remembered under a number, and else the second. -/
  | ifGroup (index : Nat) (first second : Pattern)
  deriving DecidableEq, Repr, Inhabited

namespace Pattern

/-- A place in a text with what is remembered so far. -/
structure Cursor where
  /-- The characters before the place, nearest first. -/
  before : List Char
  /-- The characters after the place. -/
  after : List Char
  /-- How many characters are after the place. -/
  left : Nat
  /-- They have been counted. -/
  left_eq : left = after.length
  /-- The remembered pieces, newest first. -/
  groups : List (Nat × Text)
  deriving DecidableEq, Repr

namespace Cursor

/-- The beginning of a text. -/
def start (text : Text) : Cursor := ⟨[], text, text.length, rfl, []⟩

/-- The piece remembered under a number. -/
def group? (here : Cursor) (index : Nat) : Option Text := here.groups.lookup index

/-- The next character and the place after it. -/
def next? (here : Cursor) : Option (Char × Cursor) :=
  match here with
  | ⟨before, c :: after, left, left_eq, groups⟩ =>
    some (c, ⟨c :: before, after, left - 1, by rw [left_eq]; rfl, groups⟩)
  | ⟨_, [], _, _, _⟩ => none

/-- The place one character on, if that character is in a set. -/
def step? (here : Cursor) (set : CharSet) : Option Cursor :=
  match here.next? with
  | some (c, there) => if set.has c then some there else none
  | none => none

/-- The place so many characters on. -/
def skip (here : Cursor) : Nat → Cursor
  | 0 => here
  | n + 1 =>
    match here.next? with
    | some (_, there) => skip there n
    | none => here

/-- The place so many characters back, if there are so many. -/
def back? (here : Cursor) : Nat → Option Cursor
  | 0 => some here
  | n + 1 =>
    match here with
    | ⟨c :: before, after, left, left_eq, groups⟩ =>
      back? ⟨before, c :: after, left + 1, by rw [left_eq]; rfl, groups⟩ n
    | ⟨[], _, _, _, _⟩ => none

/-- The later place with the piece between the two remembered. -/
def remember (source target : Cursor) (index : Nat) : Cursor :=
  let piece := source.after.take (source.left - target.left)
  { target with groups := (index, piece) :: target.groups }

/-- Whether a condition holds at a place. No edge, and no place that is none, is in an empty
text. -/
def meets (here : Cursor) : Anchor → Bool
  | .textStart => here.before = []
  | .lineStart => here.before = [] || here.before.head? = some '\n'
  | .textEnd => here.after = []
  | .lineEnd => here.after = [] || here.after.head? = some '\n'
  | .lastLineEnd => here.after = [] || here.after = ['\n']
  | .wordEdge negated ascii =>
    let isWord := fun c : Option Char => (c.map (CharClass.word.has ascii)).getD false
    !(here.before = [] && here.after = []) &&
      ((isWord here.before.head? != isWord here.after.head?) != negated)

end Cursor

/-- Whether two pieces are the same under a rule of case. -/
def sameText (rule : CaseRule) (s t : Text) : Bool :=
  s.map rule.lower = t.map rule.lower

/-- The place after a remembered piece, if it follows once more. -/
def againAt (rule : CaseRule) (index : Nat) (here : Cursor) : Option Cursor := do
  let piece ← here.group? index
  if piece.length ≤ here.left ∧ sameText rule piece (here.after.take piece.length) then
    some (here.skip piece.length)
  else none

/-- So many rounds of a body that gives all its ways. -/
def rounds (body : Cursor → List Cursor) : Nat → Cursor → List Cursor
  | 0, here => [here]
  | n + 1, here => (body here).flatMap (rounds body n)

/-- Further rounds of a body, at most `limit` if that is given. A round that did not move ends
the repetition; `last` is what was left when the round before began. -/
def furtherRounds (body : Cursor → List Cursor) (greedy : Bool) :
    (fuel : Nat) → (limit last : Option Nat) → Cursor → List Cursor
  | 0, _, _, here => [here]
  | fuel + 1, limit, last, here =>
    if limit = some 0 ∨ last = some here.left then [here]
    else
      let more := (body here).flatMap
        (furtherRounds body greedy fuel (limit.map (· - 1)) (some here.left))
      if greedy then more ++ [here] else here :: more

/-- All ways in which a piece of the pattern begins at a place, by the places where it ends,
preferred ways first. -/
def ways : Pattern → Cursor → List Cursor
  | empty, here => [here]
  | char set, here => (here.step? set).toList
  | anchor place, here => if here.meets place then [here] else []
  | seq p q, here => (ways p here).flatMap (ways q)
  | alt p q, here => ways p here ++ ways q here
  | loop greedy least most p, here =>
    (rounds (ways p) least here).flatMap
      (furtherRounds (ways p) greedy (here.left + 2) (most.map (· - least)) none)
  | group index p, here => (ways p here).map (here.remember · index)
  | atomic p, here => (ways p here).head?.toList
  | ahead negated p, here =>
    match (ways p here).head? with
    | some found => if negated then [] else [{ here with groups := found.groups }]
    | none => if negated then [here] else []
  | behind negated width p, here =>
    match (here.back? width).bind fun earlier => (ways p earlier).head? with
    | some found => if negated then [] else [{ here with groups := found.groups }]
    | none => if negated then [here] else []
  | again rule index, here => (againAt rule index here).toList
  | ifGroup index p q, here => if (here.group? index).isSome then ways p here else ways q here

/-- The pattern of a fixed text. -/
def text : Text → Pattern
  | [] => empty
  | c :: rest => seq (char (.one c)) (text rest)

/-- Patterns one after the other. -/
def sequence : List Pattern → Pattern
  | [] => empty
  | [p] => p
  | p :: ps => seq p (sequence ps)

/-- Patterns to choose from, the preferred ones first. -/
def oneOf : Pattern → List Pattern → Pattern
  | p, [] => p
  | p, q :: qs => alt p (oneOf q qs)

/-- Any number of pieces, as many as possible. -/
def many (p : Pattern) : Pattern := loop true 0 none p

/-- One or more pieces, as many as possible. -/
def many1 (p : Pattern) : Pattern := loop true 1 none p

/-- Any number of pieces, as few as possible. -/
def few (p : Pattern) : Pattern := loop false 0 none p

/-- A piece if possible. -/
def optional (p : Pattern) : Pattern := loop true 0 (some 1) p

end Pattern

end SourceLoom
