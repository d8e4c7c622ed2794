import SourceLoom.Pattern.Reading

/-!
# Reading patterns: groups, repetitions and branches

A pattern is read from its text in one pass, with the flags that hold at each place already
applied. The text is refused at the first place where it makes no sense; what only the finished
pattern shows, such as a condition on what precedes whose pieces differ in length, is refused
afterwards.
-/

namespace SourceLoom.Pattern

open Reading

/-- What an item is to a repetition that follows it. -/
inductive ItemKind where
  /-- A condition on the place, which cannot be repeated. -/
  | place
  /-- A repetition, which cannot be repeated as it stands. -/
  | repeated
  /-- Anything else. -/
  | piece
  deriving DecidableEq, Repr

/-- An item of a sequence. -/
structure Item where
  /-- Where it begins. -/
  start : Nat
  /-- What it is to a repetition. -/
  kind : ItemKind
  /-- Its meaning. -/
  pattern : Pattern
  deriving DecidableEq, Repr

/-- The pattern of a single code point. -/
def pointPattern (flags : Flags) (n : Nat) : Pattern := .char (setOf flags false [.point n])

/-- The pattern that refers to a group. -/
def readAgain (index : Nat) : Reading Pattern := do
  checkBehind index
  return .again (← get).flags.caseRule index

/-- The pattern of an escape of one or two digits that refers to a group, or of three octal digits
that name a code point. -/
def readDigits (first : Char) : Reading Pattern := do
  let second ← takeWhile isDecimal 1
  let third ←
    if isOctal first ∧ second ≠ [] ∧ second.all isOctal then takeWhile isOctal 1 else pure []
  let digits := first :: second ++ third
  if third ≠ [] then
    let point := valueOf 8 digits
    if lastOctal < point then refuse (.largeOctal ('\\' :: digits)) (digits.length + 1)
    return pointPattern (← get).flags point
  else
    let index := valueOf 10 digits
    if (← get).groups.length < index then refuse (.invalidGroup index) digits.length
    if !(← isClosed index) then refuse .openGroup (digits.length + 1)
    readAgain index

/-- The item of an escape outside sets that was taken. -/
def readEscape (start : Nat) (c : Char) : Reading Item := do
  let flags := (← get).flags
  let anchored (place : Anchor) : Item := ⟨start, .place, .anchor place⟩
  let piece (pattern : Pattern) : Item := ⟨start, .piece, pattern⟩
  match c with
  | 'A' => return anchored .textStart
  | 'Z' => return anchored .textEnd
  | 'b' => return anchored (.wordEdge false flags.ascii)
  | 'B' => return anchored (.wordEdge true flags.ascii)
  | _ =>
    match classEscape? c, controlEscape? c with
    | some (members, negated), _ =>
      return piece (.char (setOf flags false [.kind members negated]))
    | none, some point => return piece (pointPattern flags point)
    | none, none =>
      match ← readNumbered c with
      | some point => return piece (pointPattern flags point)
      | none =>
        if c = '0' then
          return piece (pointPattern flags (valueOf 8 (c :: (← takeWhile isOctal 2))))
        else if isDecimal c then return piece (← readDigits c)
        else if isAsciiLetter c then refuse (.badEscape ['\\', c]) 2
        else return piece (pointPattern flags c.toNat)

/-- From this number on rounds cannot be counted. -/
def roundLimit : Nat := 4294967295

/-- How often an item is repeated. -/
structure Rounds where
  /-- At least so often. -/
  least : Nat
  /-- At most so often, if there is a bound. -/
  most : Option Nat
  deriving DecidableEq, Repr

/-- A number of rounds from its digits. -/
def roundsOf (digits : Text) : Reading Nat := do
  if Text.digitLimit < digits.length then throw (.tooManyDigits digits.length)
  let count := valueOf 10 digits
  if roundLimit ≤ count then throw .tooManyRounds
  return count

/-- The numbers of rounds in braces, whose opening brace was taken. Without any such numbers the
brace is an ordinary character, and what follows it is left as it was. -/
def readBraces : Reading (Option Rounds) := do
  let reader ← get
  let start ← position
  if (← peek) = some (.plain '\x7d') then return none
  let least ← takeWhile isDecimal (← size)
  let most ← if ← skip ',' then takeWhile isDecimal (← size) else pure least
  if !(← skip '\x7d') then
    set reader
    return none
  let fewest ← if least = [] then pure 0 else roundsOf least
  if most = [] then return some ⟨fewest, none⟩
  let greatest ← roundsOf most
  if greatest < fewest then refuseAt .leastAboveMost start
  return some ⟨fewest, some greatest⟩

/-- The numbers of rounds that a repetition mark stands for, if the character is one. -/
def readRounds (c : Char) : Reading (Option Rounds) :=
  match c with
  | '?' => pure (some ⟨0, some 1⟩)
  | '*' => pure (some ⟨0, none⟩)
  | '+' => pure (some ⟨1, none⟩)
  | '\x7b' => readBraces
  | _ => pure none

/-- The last item repeated, by a repetition mark at a place. What follows the mark says whether
the repetition is lazy, or gives nothing back. -/
def repeatLast (mark : Nat) (rounds : Rounds) : List Item → Reading (List Item)
  | [] => refuseAt .nothingToRepeat mark
  | item :: before => do
    if item.kind = .place then refuseAt .nothingToRepeat mark
    if item.kind = .repeated then refuseAt .multipleRepeat mark
    let isLazy ← skip '?'
    let keeps ← if isLazy then pure false else skip '+'
    let round := if keeps then .atomic item.pattern else item.pattern
    let loop := .loop (!isLazy) rounds.least rounds.most round
    if (← get).flags.template then
      defer item.start <| .unsupported <| String.toList <|
        if isLazy then "MIN_REPEAT" else if keeps then "POSSESSIVE_REPEAT" else "MAX_REPEAT"
    return ⟨item.start, .repeated, if keeps then .atomic loop else loop⟩ :: before

/-- A flag. -/
inductive Flag where
  | ignoreCase
  | locale
  | multiline
  | dotAll
  | verbose
  | ascii
  | template
  | unicode
  deriving DecidableEq, Repr

namespace Flag

/-- The flag of a letter. -/
def ofChar? : Char → Option Flag
  | 'i' => some ignoreCase
  | 'L' => some locale
  | 'm' => some multiline
  | 's' => some dotAll
  | 'x' => some verbose
  | 'a' => some ascii
  | 't' => some template
  | 'u' => some unicode
  | _ => none

/-- Whether a flag says which characters there are. -/
def isKind : Flag → Bool
  | locale => true
  | ascii => true
  | unicode => true
  | _ => false

/-- The flags with one of them on or off. -/
def switch (value : Bool) (flags : Flags) : Flag → Flags
  | ignoreCase => { flags with ignoreCase := value }
  | locale => flags
  | multiline => { flags with multiline := value }
  | dotAll => { flags with dotAll := value }
  | verbose => { flags with verbose := value }
  | ascii => { flags with ascii := value }
  | template => { flags with template := value }
  | unicode => { flags with unicode := value }

/-- The flags with others on and off. Inside a group a kind of characters replaces the other. -/
def apply (inGroup : Bool) (added removed : List Flag) (flags : Flags) : Flags :=
  let cleared := if inGroup ∧ added.any isKind then { flags with ascii := false, unicode := false }
    else flags
  removed.foldl (switch false) (added.foldl (switch true) cleared)

end Flag

/-- The flag of a token. Where the token is none, a letter is an unknown flag, and anything else
shows that something else is missing. -/
def flagOf (missing : Complaint) (token : Token) : Reading Flag := do
  match token with
  | .escaped _ => refuse missing 2
  | .plain c =>
    match Flag.ofChar? c with
    | some flag => return flag
    | none => refuse (if Text.isLetter c then .unknownFlag else missing) 1

/-- The flags that are turned on after the one that was taken, and the mark that ends them. -/
def readAdded : (limit : Nat) → Flag → (added : List Flag) → Reading (List Flag × Char)
  | 0, _, _ => refuse .missingFlagsEnd 0
  | limit + 1, flag, added => do
    if flag = .locale then refuse .localeFlag 0
    let added := added ++ [flag]
    if flag.isKind ∧ added.any (fun other => other.isKind ∧ other ≠ flag) then
      refuse .clashingFlags 0
    match ← take with
    | none => refuse .missingFlagsEnd 0
    | some token =>
      if token = .plain ')' then return (added, ')')
      if token = .plain '-' then return (added, '-')
      if token = .plain ':' then return (added, ':')
      readAdded limit (← flagOf .missingFlagsEnd token) added

/-- The flags that are turned off after the one that was taken, up to a colon. -/
def readRemoved : (limit : Nat) → Flag → (removed : List Flag) → Reading (List Flag)
  | 0, _, _ => refuse .missingColon 0
  | limit + 1, flag, removed => do
    if flag.isKind then refuse .kindFlagOff 0
    let removed := removed ++ [flag]
    match ← take with
    | none => refuse .missingColon 0
    | some token =>
      if token = .plain ':' then return removed
      readRemoved limit (← flagOf .missingColon token) removed

/-- The flags in a group whose first flag or minus sign was taken: none if they are for the whole
pattern, and then they hold from now on; else those turned on and those turned off. -/
def readFlags (first : Char) : Reading (Option (List Flag × List Flag)) := do
  let (added, mark) ← match Flag.ofChar? first with
    | some flag => readAdded (← size) flag []
    | none => pure ([], '-')
  if mark = ')' then
    modify fun reader => { reader with flags := Flag.apply false added [] reader.flags }
    return none
  if Flag.template ∈ added then refuse .globalFlagOn 1
  if mark = ':' then return some (added, [])
  match ← take with
  | none => refuse .missingFlag 0
  | some token =>
    let removed ← readRemoved (← size) (← flagOf .missingFlag token) []
    if Flag.template ∈ removed then refuse .globalFlagOff 1
    if added.any (· ∈ removed) then refuse .flagOnAndOff 1
    return some (added, removed)

/-- Opens a group and gives its number. -/
def openGroup (name : Option Text) : Reading Nat := do
  let reader ← get
  let index := reader.groups.length + 1
  match name with
  | none => set { reader with groups := reader.groups ++ [none] }
  | some name =>
    match reader.names.lookup name with
    | some former => refuse (.redefinedGroup name index former) (name.length + 1)
    | none =>
      set { reader with groups := reader.groups ++ [none], names := (name, index) :: reader.names }
  return index

/-- The width of a pattern that was read. -/
def widthOf (pattern : Pattern) : Reading Width := do
  let groups := (← get).groups
  return width (fun index => (groups[index - 1]?.join).getD ⟨0, 0⟩) pattern

/-- Closes a group. -/
def closeGroup (index : Nat) (content : Pattern) : Reading Unit := do
  let width ← widthOf content
  modify fun reader => { reader with groups := reader.groups.set (index - 1) (some width) }

/-- Takes the closing parenthesis of a group that begins at a place. -/
def closeParenthesis (start : Nat) : Reading Unit := do
  if !(← skip ')') then refuseAt .unterminatedGroup start

/-- The name of a group, with the mark that ends it, which must be an identifier. -/
def readGroupName (terminator : Char) : Reading Text := do
  let name ← takeGroupName terminator
  if !Text.isIdentifier name then refuse (.badGroupName name) (name.length + 1)
  return name

/-- The number of the group that has a name. -/
def groupNamed (name : Text) : Reading Nat := do
  match (← get).names.lookup name with
  | some index => return index
  | none => refuse (.unknownGroup name) (name.length + 1)

/-- No group has a number as large as this. -/
def groupLimit : Nat := 2147483647

/-- The group that a choice refers to, by name or by number. A number may be that of a later
group; whether there is one is seen in the end. -/
def readCondition : Reading Nat := do
  let name ← takeGroupName ')'
  let index ←
    if Text.isIdentifier name then groupNamed name
    else
      match Text.toInt? name with
      | some (.ofNat index) =>
        if index = 0 then refuse .badGroupNumber (name.length + 1)
        if groupLimit ≤ index then refuse (.invalidGroup index) (name.length + 1)
        let place := (← position) - name.length - 1
        modify fun reader =>
          { reader with
            references := if reader.references.any (·.1 = index) then reader.references
              else reader.references ++ [(index, place)] }
        pure index
      | _ => refuse (.badGroupName name) (name.length + 1)
  checkBehind index
  return index

/-- No piece of a condition on what precedes may be longer. -/
def behindLimit : Nat := 4294967295

/-- The condition on what precedes, which begins at a place. -/
def behindPattern (start : Nat) (negated : Bool) (content : Pattern) : Reading Pattern := do
  let width ← widthOf content
  if behindLimit < width.least then defer start .farBehind
  else if width.least ≠ width.most then defer start .varyingBehind
  return .behind negated width.least content

/-- Blanks that mean nothing where blanks and comments do not count. -/
def isVerboseBlank (c : Char) : Bool := c = ' ' || (0x9 ≤ c.toNat && c.toNat ≤ 0xD)

/-- The branches of a choice as one pattern. -/
def branches : List Pattern → Pattern
  | [] => .empty
  | p :: ps => oneOf p ps

mutual

/-- The branches of a choice, separated by bars. `top` says whether this is the whole pattern. -/
def readBranches : (fuel : Nat) → (top : Bool) → Reading (List Pattern)
  | 0, _ => pure []
  | fuel + 1, top => do
    let first ← readItems fuel top []
    if ← skip '|' then return sequence first :: (← readBranches fuel false)
    else return [sequence first]

/-- The items of a sequence after those found so far, the last first. `top` says whether flags for
the whole pattern may still come. -/
def readItems : (fuel : Nat) → (top : Bool) → (found : List Item) → Reading (List Pattern)
  | 0, _, found => pure (found.reverse.map (·.pattern))
  | fuel + 1, top, found => do
    let start ← position
    let flags := (← get).flags
    let token ← peek
    if token = none ∨ token = some (.plain '|') ∨ token = some (.plain ')') then
      return found.reverse.map (·.pattern)
    match ← take with
    | none => return found.reverse.map (·.pattern)
    | some (.escaped c) => readItems fuel top ((← readEscape start c) :: found)
    | some (.plain c) =>
      let piece (pattern : Pattern) : Item := ⟨start, .piece, pattern⟩
      if flags.verbose ∧ isVerboseBlank c then readItems fuel top found
      else if flags.verbose ∧ c = '#' then
        let _ ← dropPast (· = .plain '\n') ((← size) + 1)
        readItems fuel top found
      else match c with
        | '[' => readItems fuel top (piece (.char (← readSet start)) :: found)
        | '.' =>
          let set : CharSet := if flags.dotAll then ⟨true, [], .exact⟩ else .outside ['\n']
          readItems fuel top (piece (.char set) :: found)
        | '^' =>
          let place := if flags.multiline then .lineStart else .textStart
          readItems fuel top (⟨start, .place, .anchor place⟩ :: found)
        | '$' =>
          let place := if flags.multiline then .lineEnd else .lastLineEnd
          readItems fuel top (⟨start, .place, .anchor place⟩ :: found)
        | '(' =>
          match ← readGroup fuel start (top ∧ found = []) with
          | some pattern => readItems fuel top (piece pattern :: found)
          | none => readItems fuel top found
        | _ =>
          match ← readRounds c with
          | some rounds => readItems fuel top (← repeatLast start rounds found)
          | none => readItems fuel top (piece (pointPattern flags c.toNat) :: found)

/-- The content of a group up to its closing parenthesis, under its own flags. -/
def readContent : (fuel : Nat) → (start : Nat) → (flags : Flags → Flags) → Reading Pattern
  | 0, _, _ => pure .empty
  | fuel + 1, start, change => do
    let flags := (← get).flags
    modify fun reader => { reader with flags := change reader.flags }
    let content ← readBranches fuel false
    modify fun reader => { reader with flags }
    closeParenthesis start
    return branches content

/-- A group that is remembered, with or without a name. -/
def readRemembered : (fuel : Nat) → (start : Nat) → (name : Option Text) → Reading Pattern
  | 0, _, _ => pure .empty
  | fuel + 1, start, name => do
    let index ← openGroup name
    let content ← readContent fuel start id
    closeGroup index content
    return .group index content

/-- A condition on what precedes. -/
def readBehind : (fuel : Nat) → (start : Nat) → (negated : Bool) → Reading Pattern
  | 0, _, _ => pure .empty
  | fuel + 1, start, negated => do
    let outer := (← get).behindFrom
    modify fun reader =>
      { reader with behindFrom := some (outer.getD (reader.groups.length + 1)) }
    let flags := (← get).flags
    let content ← readBranches fuel false
    modify fun reader => { reader with flags, behindFrom := outer }
    closeParenthesis start
    behindPattern start negated (branches content)

/-- A choice by whether a group was remembered. -/
def readChoice : (fuel : Nat) → (start : Nat) → Reading Pattern
  | 0, _ => pure .empty
  | fuel + 1, start => do
    let index ← readCondition
    let first ← readItems fuel false []
    let second ←
      if ← skip '|' then
        let second ← readItems fuel false []
        if (← peek) = some (.plain '|') then refuse .manyBranches 0
        pure second
      else pure []
    closeParenthesis start
    return .ifGroup index (sequence first) (sequence second)

/-- A group whose opening parenthesis, at a place, was taken. Comments and flags for the whole
pattern, which must come first, are no items. -/
def readGroup : (fuel : Nat) → (start : Nat) → (mayFlag : Bool) → Reading (Option Pattern)
  | 0, _, _ => pure none
  | fuel + 1, start, mayFlag => do
    if !(← skip '?') then return some (← readRemembered fuel start none)
    match ← take with
    | none => refuse .unexpectedEnd 0
    | some (.plain 'P') =>
      if ← skip '<' then return some (← readRemembered fuel start (some (← readGroupName '>')))
      else if ← skip '=' then
        let name ← readGroupName ')'
        let index ← groupNamed name
        if !(← isClosed index) then refuse .openGroup (name.length + 1)
        return some (← readAgain index)
      else
        match ← take with
        | none => refuse .unexpectedEnd 0
        | some token =>
          refuse (.unknownExtension ('P' :: token.toText)) (token.toText.length + 2)
    | some (.plain ':') => return some (← readContent fuel start id)
    | some (.plain '#') =>
      if !(← dropPast (· = .plain ')') ((← size) + 1)) then refuseAt .unterminatedComment start
      return none
    | some (.plain '=') => return some (.ahead false (← readContent fuel start id))
    | some (.plain '!') => return some (.ahead true (← readContent fuel start id))
    | some (.plain '<') =>
      match ← take with
      | none => refuse .unexpectedEnd 0
      | some (.plain '=') => return some (← readBehind fuel start false)
      | some (.plain '!') => return some (← readBehind fuel start true)
      | some token =>
        refuse (.unknownExtension ('<' :: token.toText)) (token.toText.length + 2)
    | some (.plain '(') => return some (← readChoice fuel start)
    | some (.plain '>') => return some (.atomic (← readContent fuel start id))
    | some token =>
      match token with
      | .plain c =>
        if c = '-' ∨ (Flag.ofChar? c).isSome then
          match ← readFlags c with
          | none =>
            if !mayFlag then refuseAt .lateFlags start
            return none
          | some (added, removed) =>
            return some (← readContent fuel start (Flag.apply true added removed))
        else refuse (.unknownExtension [c]) 2
      | .escaped c => refuse (.unknownExtension ['\\', c]) 3

end

/-- The pattern that a text describes. -/
def read (text : Text) : Except Fault Pattern := do
  let source ← Source.ofText 0 text
  let (pieces, reader) ← (readBranches (5 * text.length + 5) true).run { source }
  if reader.flags.ascii ∧ reader.flags.unicode then throw .clashingKinds
  if reader.source.next.isSome then throw (.refused .unbalanced (some reader.source.position))
  match reader.references.find? (reader.groups.length < ·.1) with
  | some (index, place) => throw (.refused (.invalidGroup index) (some place))
  | none => pure ()
  match reader.deferred with
  | some (_, complaint) => throw (.refused complaint none)
  | none => return branches pieces

end SourceLoom.Pattern
