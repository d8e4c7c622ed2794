import SourceLoom.Conventions
import SourceLoom.Datum
import SourceLoom.Text.Numeral

/-!
# Settings

The conventions of a project may be set, each under its name. A name that no convention has is
refused before any value is looked at; then the values are looked at in their order, and the first
one that does not fit is refused. What is not set keeps its usual value.
-/

namespace SourceLoom.Settings

/-- The name of the setting for the alias mark. -/
def aliasMark : Text := "alias_prefix".toList

/-- The name of the setting for the alias folder. -/
def aliasFolder : Text := "alias_target_subdir".toList

/-- The name of the setting for the marker file. -/
def markerFile : Text := "marker_file_name".toList

/-- The name of the setting for the number of directories searched. -/
def searchLevels : Text := "max_root_search_levels".toList

/-- The name of the setting for the endings. -/
def extensions : Text := "extensions".toList

/-- The names of all settings. -/
def names : List Text := [aliasMark, aliasFolder, markerFile, searchLevels, extensions]

/-- Why settings are refused. -/
inductive Fault where
  /-- No convention has these names. -/
  | unknown (names : List Text)
  /-- The endings are no list of texts, or one of them is empty. -/
  | badExtensions
  /-- The number of directories is no natural number. -/
  | badLevels
  /-- Another setting is no text, or is empty. -/
  | badText (name : Text)
  /-- Two unknown names are of kinds that have no order. -/
  | noOrder (kind other : Text)
  /-- The first unknown name is no text. -/
  | nameKind (kind : Text)
  deriving DecidableEq, Repr

/-- The message of a fault in the settings of a source. -/
def Fault.message (source : Text) : Fault → Text
  | unknown names =>
    source ++ ": unknown setting(s): ".toList ++ Text.join ", ".toList names
  | badExtensions => source ++ ": 'extensions' must be a list of strings".toList
  | badLevels => source ++ ": 'max_root_search_levels' must be a non-negative integer".toList
  | badText name => source ++ ": '".toList ++ name ++ "' must be a non-empty string".toList
  | noOrder kind other =>
    "'<' not supported between instances of '".toList ++ kind ++ "' and '".toList ++ other ++ ['\'']
  | nameKind kind =>
    "sequence item 0: expected str instance, ".toList ++ kind ++ " found".toList

/-- The text of a value that is one. -/
def text? : Datum → Option Text
  | .text value => some value
  | _ => none

/-- The text of a value that is a text with something in it. -/
def filledText? : Datum → Option Text
  | .text [] => none
  | .text value => some value
  | _ => none

/-- Whether two names have an order. -/
def haveOrder (a b : Datum) : Bool :=
  if a.kind = b.kind then a.kind ≠ "NoneType".toList
  else
    let numbers : List Text := ["bool".toList, "int".toList, "float".toList]
    a.kind ∈ numbers && b.kind ∈ numbers

/-- The first two neighbours of a list without an order, the later one first. -/
def disordered? : List Datum → Option (Datum × Datum)
  | a :: b :: rest => if haveOrder a b then disordered? (b :: rest) else some (b, a)
  | _ => none

/-- The least of some names. -/
def least (first : Datum) (rest : List Datum) : Datum :=
  rest.foldl (fun least name => if name.lessThan least then name else least) first

/-- The fault of names that no convention has, if there are any. -/
def faultOfUnknown? (unknown : List Datum) : Option Fault :=
  match disordered? unknown, unknown with
  | some (a, b), _ => some (.noOrder a.kind b.kind)
  | none, [] => none
  | none, first :: rest =>
    match unknown.mapM text? with
    | some texts => some (.unknown (Text.sort texts))
    | none => some (.nameKind (least first rest).kind)

/-- An ending with the dot it begins with. -/
def dotted (ending : Text) : Text := if ending.head? = some '.' then ending else '.' :: ending

/-- The conventions with one of them set. -/
def apply (conventions : Conventions) (name : Text) (value : Datum) : Except Fault Conventions :=
  if name = extensions then
    match value with
    | .list items =>
      match items.mapM filledText? with
      | some endings => .ok { conventions with extensions := endings.map dotted }
      | none => .error .badExtensions
    | _ => .error .badExtensions
  else if name = searchLevels then
    match value with
    | .int (.ofNat levels) => .ok { conventions with searchLevels := levels }
    | _ => .error .badLevels
  else
    match filledText? value with
    | none => .error (.badText name)
    | some value =>
      if name = aliasMark then .ok { conventions with aliasMark := value }
      else if name = aliasFolder then .ok { conventions with aliasFolder := value }
      else .ok { conventions with markerFile := value }

/-- The conventions with settings applied in their order. -/
def applyAll : Conventions → List (Datum × Datum) → Except Fault Conventions
  | conventions, [] => .ok conventions
  | conventions, (key, value) :: entries => do
    applyAll (← apply conventions ((text? key).getD []) value) entries

/-- Whether a key is the name of a setting. -/
def isKnown (key : Datum) : Bool := names.any fun name => key.sameKey (.text name)

/-- The conventions that a table of settings describes. -/
def ofEntries (entries : List (Datum × Datum)) : Except Fault Conventions :=
  match faultOfUnknown? ((entries.map (·.1)).filter fun key => !isKnown key) with
  | some fault => .error fault
  | none => applyAll {} entries

end SourceLoom.Settings
