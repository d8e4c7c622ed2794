import SourceLoom.Json.Basic

/-!
# Data of settings

What a file of settings holds, whatever its format: values, lists of them, and tables from values
to values. The keys of a table are scalars, and keys of equal value are one key: a truth value
equals zero or one, and a number equals another of the same value.
-/

namespace SourceLoom

/-- A value in a file of settings. -/
inductive Datum where
  /-- Nothing. -/
  | null
  /-- A truth value. -/
  | bool (value : Bool)
  /-- A whole number. -/
  | int (value : Int)
  /-- Any other number. -/
  | float (value : Decimal.Binary64)
  /-- A text. -/
  | text (value : Text)
  /-- Values in order, whether or not more may be added to them. -/
  | list (items : List Datum)
  /-- Values under keys, in order. -/
  | table (entries : List (Datum × Datum))
  /-- A value of a kind that no setting has, such as a date. -/
  | foreign (kind spelling : Text)
  deriving Repr, Inhabited

namespace Datum

/-- The name of the kind of a value. -/
def kind : Datum → Text
  | null => "NoneType".toList
  | bool _ => "bool".toList
  | int _ => "int".toList
  | float _ => "float".toList
  | text _ => "str".toList
  | list _ => "list".toList
  | table _ => "dict".toList
  | foreign kind _ => kind

/-- The value of a number as a quotient with a positive denominator. -/
def quotient? : Datum → Option (Int × Nat)
  | bool value => some (if value then 1 else 0, 1)
  | int value => some (value, 1)
  | float (.finite negative mantissa exponent) =>
    let (num, den) := Decimal.Binary64.quotient mantissa exponent
    some (if negative then -(num : Int) else num, den)
  | _ => none

/-- Whether a value may be a key. -/
def mayBeKey : Datum → Bool
  | list _ => false
  | table _ => false
  | foreign kind _ => kind ≠ "set".toList
  | _ => true

/-- Whether two keys are one. -/
def sameKey (a b : Datum) : Bool :=
  match a.quotient?, b.quotient? with
  | some (m, d), some (n, e) => m * e = n * d
  | _, _ =>
    match a, b with
    | null, null => true
    | text s, text t => s = t
    | float (.infinite p), float (.infinite q) => p = q
    | foreign kind s, foreign other t => kind = other && s = t
    | _, _ => false

/-- Whether one number comes before another. -/
def lessThan (a b : Datum) : Bool :=
  match a, b with
  | float (.infinite true), float (.infinite true) => false
  | float (.infinite true), _ => true
  | _, float (.infinite false) => !(a matches float (.infinite false))
  | _, _ =>
    match a.quotient?, b.quotient? with
    | some (m, d), some (n, e) => m * e < n * d
    | _, _ => false

/-- Entries with a value under a key. A key that is there keeps its place and its first form. -/
def put (key value : Datum) : List (Datum × Datum) → List (Datum × Datum)
  | [] => [(key, value)]
  | (other, old) :: entries =>
    if sameKey other key then (other, value) :: entries else (other, old) :: put key value entries

/-- The value under a text. -/
def under? (name : Text) : List (Datum × Datum) → Option Datum
  | [] => none
  | (key, value) :: entries => if sameKey key (text name) then some value else under? name entries

mutual

/-- The value of a JSON value. -/
def ofJson : Json → Datum
  | .null => null
  | .bool value => bool value
  | .int value => int value
  | .float value => float value
  | .string value => text value
  | .array items => list (ofItems items)
  | .object members => table (ofMembers members)

/-- The values of JSON values. -/
def ofItems : List Json → List Datum
  | [] => []
  | item :: items => ofJson item :: ofItems items

/-- The entries of the members of a JSON object. -/
def ofMembers : List (Text × Json) → List (Datum × Datum)
  | [] => []
  | (name, value) :: members => (text name, ofJson value) :: ofMembers members

end

/-- What was put under a text is found there. -/
theorem under?_put (name : Text) (value : Datum) (entries : List (Datum × Datum)) :
    under? name (put (text name) value entries) = some value := by
  have same : ∀ s : Text, sameKey (text s) (text s) = true := by
    intro s
    simp [sameKey, quotient?]
  induction entries with
  | nil => simp [put, under?, same]
  | cons entry entries ih =>
    obtain ⟨other, old⟩ := entry
    by_cases h : sameKey other (text name) <;> simp [put, under?, h, ih]

end Datum

end SourceLoom
