import SourceLoom.Yaml.Value

/-!
# YAML: nodes

A node is a scalar, a list of nodes or a table of nodes. It carries its value, so that a node that
is referred to from several places is read once. A table may take the entries of other tables,
which come before its own; a node that is referred to inside itself has no entries there.
-/

namespace SourceLoom.Yaml

/-- A node. -/
inductive Node where
  /-- A scalar. -/
  | scalar (tag text : Text)
  /-- A list with its value. -/
  | list (tag : Text) (items : List Node) (value : Except Fault Datum)
  /-- A table with its own entries and with those that it has after taking others in, with the text
  that stands for it, and with its value. -/
  | table (tag : Text) (entries : List (Node × Node)) (merged : Except Fault (List (Node × Node)))
      (text : Except Fault Text) (value : Except Fault Datum)
  /-- A list or a table that is not finished. -/
  | unfinished (isTable : Bool)
  deriving Inhabited

namespace Node

/-- The tag of a node. -/
def tag : Node → Text
  | scalar tag _ => tag
  | list tag _ _ => tag
  | table tag _ _ _ _ => tag
  | unfinished isTable => if isTable then Tag.table else Tag.list

/-- The value of a node. -/
def value : Node → Except Fault Datum
  | scalar tag text => scalarValue tag text
  | list _ _ value => value
  | table _ _ _ _ value => value
  | unfinished isTable => .ok (if isTable then .table [] else .list [])

/-- The text of a scalar, or the text that stands for a table. -/
def text : Node → Except Fault Text
  | scalar _ text => .ok text
  | table _ _ _ text _ => text
  | _ => .error .malformed

/-- The value of a node as a key. -/
def keyValue (node : Node) : Except Fault Datum := do
  let value ← match node with
    | scalar tag text => if tag = Tag.value then pure (.text text) else scalarValue tag text
    | _ => node.value
  if value.mayBeKey then return value else throw .malformed

/-- The entries that a table takes from a node. -/
def merged : Node → Except Fault (List (Node × Node))
  | table _ _ merged _ _ => merged
  | unfinished true => .ok []
  | _ => .error .malformed

/-- The entries that a table takes from a node or from a list of nodes, of which the last comes
first. -/
def taken : Node → Except Fault (List (Node × Node))
  | list _ items _ => do
    let parts ← items.mapM merged
    return parts.reverse.flatten
  | node => node.merged

/-- The entries of a table: first those taken from others, then its own. -/
def mergedEntries (entries : List (Node × Node)) : Except Fault (List (Node × Node)) := do
  let (merging, own) := entries.partition fun (key, _) => key.tag = Tag.merge
  let parts ← merging.mapM fun (_, node) => node.taken
  return parts.flatten ++ own

/-- The values of the entries of a table. -/
def entryValues : List (Datum × Datum) → List (Node × Node) → Except Fault (List (Datum × Datum))
  | found, [] => .ok found
  | found, (key, node) :: entries => do
    let key ← key.keyValue
    let value ← node.value
    entryValues (Datum.put key value found) entries

/-- The values of a list of tables with one entry each. -/
def pairValues : List Node → Except Fault (List Datum)
  | [] => .ok []
  | table _ [(key, node)] _ _ _ :: nodes => do
    let key ← key.value
    let value ← node.value
    return .list [key, value] :: (← pairValues nodes)
  | _ :: _ => .error .malformed

/-- A list of nodes with a tag. -/
def ofItems (tag : Text) (items : List Node) : Node :=
  .list tag items <|
    if tag = Tag.list then (items.mapM value).map .list
    else if tag = Tag.orderedTable ∨ tag = Tag.pairs then (pairValues items).map .list
    else .error .malformed

/-- The text that stands for a table of nodes: that under the special key. -/
def standingText (entries : List (Node × Node)) : Except Fault Text :=
  match entries.find? fun (key, _) => key.tag = Tag.value with
  | some (_, node) => node.text
  | none => .error .malformed

/-- A table of nodes with a tag. -/
def ofEntries (tag : Text) (entries : List (Node × Node)) : Node :=
  let merged := mergedEntries entries
  let text := standingText entries
  .table tag entries merged text <|
    if tag = Tag.table then do return .table (← entryValues [] (← merged))
    else if tag = Tag.set then do
      let _ ← entryValues [] (← merged)
      return .foreign "set".toList []
    else do scalarValue tag (← text)

/-- The node of an empty place. -/
def empty : Node := .scalar Tag.null []

end Node

end SourceLoom.Yaml
