import SourceLoom.Decimal.Shortest
import SourceLoom.Text

/-!
# JSON values

A value of the data format. An object keeps its members in order, each name once: a member that
is given again keeps its first place and takes its last value.
-/

namespace SourceLoom

/-- A JSON value. Whole numbers have any size; all other numbers have 64 bits. -/
inductive Json where
  /-- Nothing. -/
  | null
  /-- A truth value. -/
  | bool (value : Bool)
  /-- A number written without fraction and exponent. -/
  | int (value : Int)
  /-- Any other number. -/
  | float (value : Decimal.Binary64)
  /-- A text. -/
  | string (value : Text)
  /-- Values in order. -/
  | array (items : List Json)
  /-- Named values in order. -/
  | object (members : List (Text × Json))
  deriving Repr, Inhabited

namespace Json

/-- Members with a name that leads to a given value. -/
def putMember (name : Text) (value : Json) : List (Text × Json) → List (Text × Json)
  | [] => [(name, value)]
  | (other, old) :: members =>
    if other = name then (name, value) :: members else (other, old) :: putMember name value members

/-- The member of an object under a name. -/
def member? : Json → Text → Option Json
  | object members, name => members.lookup name
  | _, _ => none

end Json

end SourceLoom
