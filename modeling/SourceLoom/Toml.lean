import SourceLoom.Toml.Scalar

/-!
# TOML

A text of the format is a list of statements, one per line: a key with its value, a table that the
following keys belong to, or one more table of a list. No statement may change what another one
has already settled: a value is given once, a table is declared once, and a table or list that is
written as a value is complete.
-/

namespace SourceLoom.Toml

/-- The entries of a table. -/
abbrev Entries := List (Datum × Datum)

/-- Changes the entries of the table that a path leads to; tables on the way are made where there
are none. A list on the way stands for its last table if `throughLists` says so. -/
def within (throughLists : Bool) : (path : List Text) → (change : Entries → Option Entries) →
    Entries → Option Entries
  | [], change, entries => change entries
  | name :: path, change, entries =>
    let put (value : Datum) : Entries := Datum.put (.text name) value entries
    match Datum.under? name entries with
    | none => (within throughLists path change []).map fun inner => put (.table inner)
    | some (.table inner) =>
      (within throughLists path change inner).map fun inner => put (.table inner)
    | some (.list items) =>
      match throughLists, items.getLast? with
      | true, some (.table inner) =>
        (within throughLists path change inner).map fun inner =>
          put (.list (items.dropLast ++ [.table inner]))
      | _, _ => none
    | some _ => none

/-- The entries with a value under a name that is new. -/
def addNew (name : Text) (value : Datum) (entries : Entries) : Option Entries :=
  match Datum.under? name entries with
  | none => some (Datum.put (.text name) value entries)
  | some _ => none

/-- The entries with one more table in the list under a name. -/
def addTable (name : Text) (entries : Entries) : Option Entries :=
  match Datum.under? name entries with
  | none => some (Datum.put (.text name) (.list [.table []]) entries)
  | some (.list items) => some (Datum.put (.text name) (.list (items ++ [.table []])) entries)
  | some _ => none

/-- What a path leads to can no longer change. -/
inductive Mark where
  /-- It is a value that is complete with all that is in it. -/
  | complete
  /-- It is a table that was declared. -/
  | declared
  deriving DecidableEq, Repr

/-- Whether a path is inside something complete. -/
def isComplete (marks : List (List Text × Mark)) (path : List Text) : Bool :=
  marks.any fun (marked, mark) => mark = .complete && marked.isPrefixOf path

/-- Whether a path leads to a declared table. -/
def isDeclared (marks : List (List Text × Mark)) (path : List Text) : Bool :=
  marks.any fun (marked, mark) => mark = .declared && marked = path

/-- Whether a value holds other values. -/
def isCollection : Datum → Bool
  | .list _ => true
  | .table _ => true
  | _ => false

/-- A failure where there is no result. -/
def orMalformed {α : Type} : Option α → Except Fault α
  | some a => .ok a
  | none => .error .malformed

/-- What follows a comment, if one begins here. -/
def skipComment (text : Text) : Except Fault Text :=
  match text with
  | '#' :: rest =>
    if (rest.takeWhile (· ≠ '\n')).any (isIllegal false) then .error .malformed
    else .ok (rest.dropWhile (· ≠ '\n'))
  | _ => .ok text

/-- What follows spaces and comments, at most so many. -/
def skipComments : (limit : Nat) → Text → Except Fault Text
  | 0, text => .ok text
  | limit + 1, text =>
    match text.dropWhile isSpace with
    | '#' :: rest => do skipComments limit (← skipComment ('#' :: rest))
    | rest => .ok rest

/-- What follows all spaces and comments. -/
def skipSpace (text : Text) : Except Fault Text := skipComments text.length text

mutual

/-- A value. -/
def readValue : (fuel : Nat) → Text → Except Fault (Datum × Text)
  | 0, _ => .error .malformed
  | fuel + 1, text =>
    match text with
    | '"' :: _ => (readString '"' text).map fun (value, rest) => (.text value, rest)
    | '\'' :: _ => (readString '\'' text).map fun (value, rest) => (.text value, rest)
    | '[' :: rest => do
      match ← skipSpace rest with
      | ']' :: rest => return (.list [], rest)
      | rest =>
        let (items, rest) ← readItems fuel rest
        return (.list items, rest)
    | '\x7b' :: rest =>
      match rest.dropWhile isBlank with
      | '\x7d' :: rest => .ok (.table [], rest)
      | rest => do
        let (entries, rest) ← readMembers fuel [] [] rest
        return (.table entries, rest)
    | _ =>
      match bool? text with
      | some found => .ok found
      | none => readNumber text

/-- The items of a list up to its closing bracket. -/
def readItems : (fuel : Nat) → Text → Except Fault (List Datum × Text)
  | 0, _ => .error .malformed
  | fuel + 1, text => do
    let (item, rest) ← readValue fuel text
    match ← skipSpace rest with
    | ']' :: rest => return ([item], rest)
    | ',' :: rest =>
      match ← skipSpace rest with
      | ']' :: rest => return ([item], rest)
      | rest =>
        let (items, rest) ← readItems fuel rest
        return (item :: items, rest)
    | _ => .error .malformed

/-- The members of a table on one line, after those read so far, up to its closing brace. -/
def readMembers : (fuel : Nat) → (marks : List (List Text × Mark)) → Entries → Text →
    Except Fault (Entries × Text)
  | 0, _, _, _ => .error .malformed
  | fuel + 1, marks, entries, text => do
    let (key, value, rest) ← readPair fuel text
    if isComplete marks key then .error .malformed
    let entries ← orMalformed <|
      within false key.dropLast (addNew (key.getLastD []) value) entries
    match rest.dropWhile isBlank with
    | '\x7d' :: rest => return (entries, rest)
    | ',' :: rest =>
      let marks := if isCollection value then (key, .complete) :: marks else marks
      readMembers fuel marks entries (rest.dropWhile isBlank)
    | _ => .error .malformed

/-- A key and its value. -/
def readPair : (fuel : Nat) → Text → Except Fault (List Text × Datum × Text)
  | 0, _ => .error .malformed
  | fuel + 1, text => do
    let (key, rest) ← readKey text.length text
    match rest with
    | '=' :: rest =>
      let (value, rest) ← readValue fuel (rest.dropWhile isBlank)
      return (key, value, rest)
    | _ => .error .malformed

end

/-- What has been read of a text. -/
structure Document where
  /-- The entries of the outermost table. -/
  entries : Entries := []
  /-- The path of the table that keys belong to. -/
  header : List Text := []
  /-- What can no longer change. -/
  marks : List (List Text × Mark) := []
  /-- The tables that count as declared when the next table begins. -/
  pending : List (List Text) := []

namespace Document

/-- The paths of the tables that a key leads through, outermost first, without the last name. -/
def pathsThrough (header : List Text) : List Text → List (List Text)
  | [] => []
  | [_] => []
  | name :: key => (header ++ [name]) :: pathsThrough (header ++ [name]) key

/-- The document with a value under a key. -/
def addPair (document : Document) (key : List Text) (value : Datum) : Except Fault Document := do
  let through := pathsThrough document.header key
  if through.any (isDeclared document.marks) then .error .malformed
  let holder := document.header ++ key.dropLast
  if isComplete document.marks holder then .error .malformed
  let entries ← orMalformed <|
    within true holder (addNew (key.getLastD []) value) document.entries
  return { document with
    entries
    pending := document.pending ++ through
    marks := if isCollection value then (document.header ++ key, .complete) :: document.marks
      else document.marks }

/-- The document before a new table begins. -/
def settle (document : Document) : Document :=
  { document with
    marks := document.pending.map (·, .declared) ++ document.marks
    pending := [] }

/-- The document with a table that is declared. -/
def openTable (document : Document) (path : List Text) : Except Fault Document := do
  if isDeclared document.marks path ∨ isComplete document.marks path then .error .malformed
  let entries ← orMalformed (within true path some document.entries)
  return { document with
    entries, header := path, marks := (path, .declared) :: document.marks }

/-- The document with one more table in a list. -/
def openItem (document : Document) (path : List Text) : Except Fault Document := do
  if isComplete document.marks path then .error .malformed
  let entries ← orMalformed <|
    within true path.dropLast (addTable (path.getLastD [])) document.entries
  let others := document.marks.filter fun (marked, _) => !path.isPrefixOf marked
  return { document with entries, header := path, marks := (path, .declared) :: others }

/-- The document after a statement, and what follows the statement. -/
def readStatement (document : Document) (text : Text) : Except Fault (Document × Text) :=
  match text with
  | '[' :: '[' :: rest => do
    let (path, rest) ← readKey rest.length (rest.dropWhile isBlank)
    let document ← document.settle.openItem path
    match rest with
    | ']' :: ']' :: rest => return (document, rest)
    | _ => .error .malformed
  | '[' :: rest => do
    let (path, rest) ← readKey rest.length (rest.dropWhile isBlank)
    let document ← document.settle.openTable path
    match rest with
    | ']' :: rest => return (document, rest)
    | _ => .error .malformed
  | '#' :: _ => .ok (document, text)
  | _ => do
    let (key, value, rest) ← readPair (3 * text.length + 3) text
    return (← document.addPair key value, rest)

/-- The document after all lines of a text, at most so many. -/
def readLines : (limit : Nat) → Document → Text → Except Fault Document
  | 0, document, _ => .ok document
  | limit + 1, document, text =>
    match text.dropWhile isBlank with
    | [] => .ok document
    | '\n' :: rest => readLines limit document rest
    | text => do
      let (document, rest) ← readStatement document text
      match ← skipComment (rest.dropWhile isBlank) with
      | [] => return document
      | '\n' :: rest => readLines limit document rest
      | _ => .error .malformed

end Document

/-- A text without the carriage returns before its line feeds. -/
def withLineFeeds : Text → Text
  | [] => []
  | [c] => [c]
  | c :: d :: rest =>
    if c = '\r' ∧ d = '\n' then withLineFeeds (d :: rest) else c :: withLineFeeds (d :: rest)

/-- The table that a text describes. -/
def read (text : Text) : Except Fault Datum := do
  let text := withLineFeeds text
  let document ← Document.readLines (text.length + 1) {} text
  return .table document.entries

end SourceLoom.Toml
