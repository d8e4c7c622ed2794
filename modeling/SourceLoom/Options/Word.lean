import SourceLoom.Options.Fault
import SourceLoom.Text.Word

/-!
# Words of a command line

A word either uses a switch or is a value. A switch may be written by any of its spellings, and a
long spelling by a beginning that no other spelling has; a value may be attached to it, to a short
spelling directly and to any spelling after an equals sign. After two hyphens alone, all words are
values.
-/

namespace SourceLoom.Options

/-- The use of a switch in a word. -/
structure Use where
  /-- The switch. -/
  switch : Switch
  /-- The spelling, in full. -/
  spelling : Text
  /-- What the word attaches to it. -/
  attached : Option Text
  deriving DecidableEq, Repr

/-- A word of a command line. -/
inductive Word where
  /-- A word that can be the value of a switch. -/
  | value (text : Text)
  /-- A word that uses a switch. -/
  | use (use : Use)
  /-- A word that is neither. -/
  | stray (text : Text)
  deriving DecidableEq, Repr

/-- The word after which all words are values. -/
def separator : Text := ['-', '-']

/-- What stands before the first equals sign of a word, and what stands after it, if there is
one. -/
def cut : Text → Text × Option Text
  | [] => ([], none)
  | '=' :: rest => ([], some rest)
  | c :: rest => ((cut rest).1.cons c, (cut rest).2)

/-- The uses that a word may be short for. A word with two hyphens is the beginning of spellings
up to its equals sign; one with a single hyphen is a short spelling with what is attached to it, or
the beginning of one. -/
def abbreviated (word : Text) : List Use :=
  match word with
  | '-' :: '-' :: _ =>
    Switch.forms.filterMap fun (spelling, switch) =>
      if (cut word).1.isPrefixOf spelling then some ⟨switch, spelling, (cut word).2⟩ else none
  | _ =>
    Switch.forms.filterMap fun (spelling, switch) =>
      if spelling = word.take 2 then some ⟨switch, spelling, some (word.drop 2)⟩
      else if word.isPrefixOf spelling then some ⟨switch, spelling, none⟩
      else none

/-- A text without the line feed at its end, if there is one. -/
def dropLineFeed (text : Text) : Text :=
  if text.getLast? = some '\n' then text.dropLast else text

/-- Whether a word is a number below zero: a hyphen before digits of any script, with at most one
point among them and none at the end. A line feed may follow. -/
def isNegativeNumeral : Text → Bool
  | '-' :: rest =>
    let body := dropLineFeed rest
    match body.dropWhile Text.isDigit with
    | [] => !body.isEmpty
    | '.' :: places => !places.isEmpty && places.all Text.isDigit
    | _ => false
  | _ => false

/-- The use that a word spells out. -/
def spelled? (word : Text) : Option Use :=
  match Switch.ofSpelling? word, cut word with
  | some switch, _ => some ⟨switch, word, none⟩
  | none, (stem, some attached) =>
    (Switch.ofSpelling? stem).map fun switch => ⟨switch, stem, some attached⟩
  | none, (_, none) => none

/-- Reads a word that may use a switch. -/
def Word.ofText (word : Text) : Except Fault Word :=
  if word.head? ≠ some '-' ∨ word = ['-'] then .ok (.value word)
  else
    match spelled? word, abbreviated word with
    | some spelled, _ => .ok (.use spelled)
    | none, [only] => .ok (.use only)
    | none, [] =>
      .ok (if isNegativeNumeral word ∨ ' ' ∈ word then .value word else .stray word)
    | none, uses => .error (.ambiguous word (uses.map (·.spelling)))

/-- Reads the words of a command line. -/
def Word.ofTexts : List Text → Except Fault (List Word)
  | [] => .ok []
  | word :: words =>
    if word = separator then .ok (.stray word :: words.map .value)
    else do
      let first ← Word.ofText word
      let others ← Word.ofTexts words
      return first :: others

/-- The values that words begin with, and each other word with the values that follow it. -/
def grouped : List Word → List Text × List (Word × List Text)
  | [] => ([], [])
  | .value text :: words => ((grouped words).1.cons text, (grouped words).2)
  | word :: words => ([], (word, (grouped words).1) :: (grouped words).2)

/-- The uses in a word, the last apart. What is attached to a short spelling that takes no value
is a row of short spellings, each without its hyphen. -/
def unbundleFrom (switch : Switch) (spelling : Text) :
    (attached : Text) → Except Fault (List Use × Use)
  | [] =>
    if switch.arity = .none then .error (.ignored switch [])
    else .ok ([], ⟨switch, spelling, some []⟩)
  | c :: attached =>
    if switch.arity ≠ .none then .ok ([], ⟨switch, spelling, some (c :: attached)⟩)
    else if !isShort spelling then .error (.ignored switch (c :: attached))
    else
      match Switch.ofSpelling? ['-', c] with
      | none => .error (.ignored switch (c :: attached))
      | some next =>
        if attached = [] then .ok ([⟨switch, spelling, none⟩], ⟨next, ['-', c], none⟩)
        else do
          let (flags, last) ← unbundleFrom next ['-', c] attached
          return (⟨switch, spelling, none⟩ :: flags, last)

/-- The uses in a word, the last apart. -/
def Use.unbundle (use : Use) : Except Fault (List Use × Use) :=
  match use.attached with
  | none => .ok ([], use)
  | some attached => unbundleFrom use.switch use.spelling attached

/-- The values that a use takes, out of what is attached to it or else of the values that follow,
and the values that are left. -/
def Use.take (use : Use) (following : List Text) : Except Fault (List Text × List Text) :=
  match use.attached, use.switch.arity, following with
  | some value, _, _ => .ok ([value], following)
  | none, .none, _ => .ok ([], following)
  | none, .many, [] => .error (.lacking use.switch)
  | none, .many, _ => .ok (following, [])
  | none, .one, [] => .error (.lacking use.switch)
  | none, _, _ => .ok (following.take 1, following.drop 1)

end SourceLoom.Options
