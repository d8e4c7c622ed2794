import SourceLoom.Yaml.Layout
import SourceLoom.Yaml.Node

/-!
# YAML

A text of the format holds at most one document, whose node is read from the tokens of the text. A
node may be given a name and be referred to by it later on; a name is given once.
-/

namespace SourceLoom.Yaml

/-- What is known while nodes are read. -/
structure Reader where
  /-- The tokens that are left. -/
  tokens : List Token
  /-- What the handles of tags stand for. -/
  handles : List (Text × Text) := []
  /-- The nodes that were given names, the last first. -/
  anchors : List (Text × Node) := []

/-- A step of reading nodes. -/
abbrev Reading := StateT Reader (Except Fault)

namespace Reading

/-- The next token. -/
def peek : Reading (Option Token) := return (← get).tokens.head?

/-- Passes the next token. -/
def skip : Reading Unit := modify fun reader => { reader with tokens := reader.tokens.drop 1 }

/-- Passes the next token if it is a certain one. -/
def skipIf (token : Token) : Reading Bool := do
  if (← peek) = some token then
    skip
    return true
  else return false

/-- Whether the next token is one of some. -/
def nextIn (tokens : List Token) : Reading Bool := return (← peek).any (· ∈ tokens)

/-- Fails unless a condition holds. -/
def require (condition : Bool) : Reading Unit :=
  if condition then pure () else throw .malformed

/-- Gives a node its name, if there is one. -/
def name (anchor : Option Text) (node : Node) : Reading Node := do
  match anchor with
  | none => return node
  | some anchor =>
    modify fun reader => { reader with anchors := (anchor, node) :: reader.anchors }
    return node

/-- Passes the names and tags before a node. -/
def readProperties : (limit : Nat) → (anchor : Option Text) →
    (tag : Option (Option Text × Text)) → Reading (Option Text × Option (Option Text × Text))
  | 0, anchor, tag => pure (anchor, tag)
  | limit + 1, anchor, tag => do
    match ← peek, anchor, tag with
    | some (.anchor name), none, tag =>
      skip
      readProperties limit (some name) tag
    | some (.tag handle rest), anchor, none =>
      skip
      readProperties limit anchor (some (handle, rest))
    | _, _, _ => return (anchor, tag)

/-- The tag that was written, with its handle resolved. The tag without any name is none. -/
def resolvedTag : Option (Option Text × Text) → Reading (Option Text)
  | none => pure none
  | some (none, rest) => pure (some rest)
  | some (some handle, rest) => do
    match (← get).handles.lookup handle with
    | some meaning => return some (meaning ++ rest)
    | none => throw .malformed

end Reading

open Reading

/-- The tag that leaves the choice to the form of the node. -/
def openTag : Text := ['!']

/-- The node of a scalar. -/
def scalarNode (tag : Option Text) (text : Text) (isPlain : Bool) : Node :=
  match tag with
  | none => .scalar (if isPlain then Tag.ofPlain text else Tag.text) text
  | some tag => .scalar (if tag = openTag then Tag.ofPlain text else tag) text

/-- The tag of a collection. -/
def collectionTag (tag : Option Text) (usual : Text) : Text :=
  match tag with
  | none => usual
  | some tag => if tag = openTag then usual else tag

mutual

/-- A node. `inBlock` says whether it may be a collection outside brackets, and `indentless`
whether it may be a list that is not indented. -/
def readNode : (fuel : Nat) → (inBlock indentless : Bool) → Reading Node
  | 0, _, _ => throw .malformed
  | fuel + 1, inBlock, indentless => do
    if let some (.alias name) ← peek then
      skip
      match (← get).anchors.lookup name with
      | some node => return node
      | none => throw .malformed
    else
      let (anchor, tag) ← readProperties 2 none none
      let tag ← resolvedTag tag
      let anchors := (← get).anchors
      require (anchor.all fun anchor => (anchors.lookup anchor).isNone)
      let asList (items : Reading (List Node)) : Reading Node := do
        let _ ← name anchor (.unfinished false)
        let items ← items
        name anchor (.ofItems (collectionTag tag Tag.list) items)
      let asTable (entries : Reading (List (Node × Node))) : Reading Node := do
        let _ ← name anchor (.unfinished true)
        let entries ← entries
        name anchor (.ofEntries (collectionTag tag Tag.table) entries)
      match ← peek with
      | some .blockEntry =>
        if indentless then asList (readIndentless fuel)
        else if anchor.isSome ∨ tag.isSome then name anchor (scalarNode tag [] true)
        else throw .malformed
      | some (.scalar text isPlain) =>
        skip
        name anchor (scalarNode tag text isPlain)
      | some .flowSequenceStart =>
        skip
        asList (readFlowItems fuel true)
      | some .flowMappingStart =>
        skip
        asTable (readFlowEntries fuel true)
      | next =>
        if inBlock ∧ next = some .blockSequenceStart then
          skip
          asList (readBlockItems fuel)
        else if inBlock ∧ next = some .blockMappingStart then
          skip
          asTable (readBlockEntries fuel)
        else if anchor.isSome ∨ tag.isSome then name anchor (scalarNode tag [] true)
        else throw .malformed

/-- A node, or an empty place before one of some tokens. -/
def readNodeBefore : (fuel : Nat) → (inBlock indentless : Bool) → (ends : List Token) → Reading Node
  | 0, _, _, _ => throw .malformed
  | fuel + 1, inBlock, indentless, ends => do
    if ← nextIn ends then return .empty else readNode fuel inBlock indentless

/-- The items of an indented list. -/
def readBlockItems : (fuel : Nat) → Reading (List Node)
  | 0 => throw .malformed
  | fuel + 1 => do
    if ← skipIf .blockEntry then
      let item ← readNodeBefore fuel true false [.blockEntry, .blockEnd]
      return item :: (← readBlockItems fuel)
    else
      require (← skipIf .blockEnd)
      return []

/-- The items of a list that is not indented. -/
def readIndentless : (fuel : Nat) → Reading (List Node)
  | 0 => throw .malformed
  | fuel + 1 => do
    if ← skipIf .blockEntry then
      let item ← readNodeBefore fuel true false [.blockEntry, .key, .value, .blockEnd]
      return item :: (← readIndentless fuel)
    else return []

/-- The entries of a table outside brackets. -/
def readBlockEntries : (fuel : Nat) → Reading (List (Node × Node))
  | 0 => throw .malformed
  | fuel + 1 => do
    if ← skipIf .key then
      let key ← readNodeBefore fuel true true [.key, .value, .blockEnd]
      let node ← readValue fuel true [.key, .value, .blockEnd]
      return (key, node) :: (← readBlockEntries fuel)
    else
      require (← skipIf .blockEnd)
      return []

/-- The value after a key: what follows its colon, or an empty place where no colon follows. -/
def readValue : (fuel : Nat) → (inBlock : Bool) → (ends : List Token) → Reading Node
  | 0, _, _ => throw .malformed
  | fuel + 1, inBlock, ends => do
    if ← skipIf .value then readNodeBefore fuel inBlock inBlock ends else return .empty

/-- The items of a list in brackets. A key among them makes a table of one entry. -/
def readFlowItems : (fuel : Nat) → (isFirst : Bool) → Reading (List Node)
  | 0, _ => throw .malformed
  | fuel + 1, isFirst => do
    if ← skipIf .flowSequenceEnd then return []
    if !isFirst then require (← skipIf .flowEntry)
    if ← skipIf .key then
      let key ← readNodeBefore fuel false false [.value, .flowEntry, .flowSequenceEnd]
      let node ← readValue fuel false [.flowEntry, .flowSequenceEnd]
      return .ofEntries Tag.table [(key, node)] :: (← readFlowItems fuel false)
    else if ← skipIf .flowSequenceEnd then return []
    else
      let item ← readNode fuel false false
      return item :: (← readFlowItems fuel false)

/-- The entries of a table in braces. A node without a colon is a key of its own. -/
def readFlowEntries : (fuel : Nat) → (isFirst : Bool) → Reading (List (Node × Node))
  | 0, _ => throw .malformed
  | fuel + 1, isFirst => do
    if ← skipIf .flowMappingEnd then return []
    if !isFirst then require (← skipIf .flowEntry)
    if ← skipIf .key then
      let key ← readNodeBefore fuel false false [.value, .flowEntry, .flowMappingEnd]
      let node ← readValue fuel false [.flowEntry, .flowMappingEnd]
      return (key, node) :: (← readFlowEntries fuel false)
    else if ← skipIf .flowMappingEnd then return []
    else
      let key ← readNode fuel false false
      return (key, .empty) :: (← readFlowEntries fuel false)

end

/-- The handles that every document has. -/
def usualHandles : List (Text × Text) := [(openTag, openTag), ("!!".toList, Tag.standard)]

/-- The handles that the directives before a document define. There is at most one version, and
its first number is one. -/
def readDirectives : (limit : Nat) → (hasVersion : Bool) → (handles : List (Text × Text)) →
    Reading (List (Text × Text))
  | 0, _, handles => pure handles
  | limit + 1, hasVersion, handles => do
    match ← peek with
    | some (.directive content) =>
      skip
      match content with
      | .version major =>
        require (!hasVersion && major = 1)
        readDirectives limit true handles
      | .handle handle meaning =>
        require (handles.lookup handle).isNone
        readDirectives limit hasVersion ((handle, meaning) :: handles)
      | .other => readDirectives limit hasVersion handles
    | _ => return handles

/-- Passes the marks that end documents. -/
def skipDocumentEnds : Reading Unit :=
  modify fun reader => { reader with tokens := reader.tokens.dropWhile (· = .documentEnd) }

/-- Whether the next token is a directive. -/
def atDirective : Reading Bool := return (← peek).any (· matches .directive _)

/-- The node of the document, if there is a document. -/
def readDocument (fuel : Nat) : Reading (Option Node) := do
  let next ← peek
  if next = none then return none
  if !(← atDirective) ∧ next ≠ some .documentStart then
    modify ({ · with handles := usualHandles })
    return some (← readNode fuel true false)
  else
    let handles ← readDirectives fuel false []
    modify ({ · with handles := handles ++ usualHandles })
    require (← skipIf .documentStart)
    let next ← peek
    if next = none ∨ (← atDirective) ∨ (← nextIn [.documentStart, .documentEnd]) then
      return some .empty
    else return some (← readNode fuel true false)

/-- The node of a text that holds at most one document. -/
def readAll (fuel : Nat) : Reading (Option Node) := do
  let node ← readDocument fuel
  skipDocumentEnds
  require (← peek).isNone
  return node

/-- The value that a text describes. -/
def read (text : Text) : Except Fault Datum := do
  let tokens ← tokens text
  let (node, _) ← (readAll (3 * tokens.length + 5)).run { tokens }
  match node with
  | some node => node.value
  | none => return .null

end SourceLoom.Yaml
