import SourceLoom.Files.System
import SourceLoom.Json.Reader
import SourceLoom.Settings
import SourceLoom.Toml
import SourceLoom.Text.LetterCase
import SourceLoom.Yaml.Source

/-!
# Files of settings

Settings may be kept in a file of any of three formats, which the ending of its name tells. A file
that also holds settings for other tools keeps those of this one in a section of their own. YAML is
read by a reader of the caller's choice.
-/

namespace SourceLoom.Settings

/-- A format of files of settings. -/
inductive Format where
  | yaml
  | toml
  | json
  deriving DecidableEq, Repr

/-- The format that the ending of a name tells, in letters of any case. -/
def Format.ofPath? (path : Path) : Option Format :=
  let ending := path.suffix.map Text.lower
  if ending = ".yaml".toList ∨ ending = ".yml".toList then some yaml
  else if ending = ".toml".toList then some toml
  else if ending = ".json".toList then some json
  else none

/-- Why a file of settings is refused. -/
inductive Refusal where
  /-- It cannot be read. -/
  | unreadable (path : Path) (fault : Files.Fault)
  /-- It is no text. -/
  | notText (path : Path) (fault : Utf8.Fault)
  /-- Its name tells no format. -/
  | unsupported (path : Path)
  /-- It is not of its format; the details are given. -/
  | malformed (path : Path) (details : Text)
  /-- It is no table. -/
  | noTable (path : Path)
  /-- Its section is no table. -/
  | noSection (path : Path)
  /-- Its settings are refused. -/
  | settings (path : Path) (fault : Fault)
  deriving DecidableEq, Repr

/-- The name of the section that is looked for first. -/
def sectionName : Text := "fileweaver".toList

/-- The message of a refusal. -/
def Refusal.message : Refusal → Text
  | unreadable path fault =>
    "Cannot read config file ".toList ++ path.toText ++ ": ".toList ++ fault.message
  | notText path fault =>
    "Cannot read config file ".toList ++ path.toText ++ ": ".toList ++ fault.message
  | unsupported path => "Unsupported config file type: ".toList ++ path.name
  | malformed path details =>
    "Cannot parse config file ".toList ++ path.toText ++ ": ".toList ++ details
  | noTable path => path.toText ++ ": expected a mapping at the top level".toList
  | noSection path => path.toText ++ ": '".toList ++ sectionName ++ "' must be a mapping".toList
  | settings path fault => fault.message path.toText

/-- What ends the reading of a file of settings without its being refused. -/
inductive Breakdown where
  /-- The path is none. -/
  | nullInPath
  /-- A whole number of JSON has so many digits that it is not read. -/
  | json (count : Nat)
  /-- A value of YAML cannot be made. -/
  | yaml (fault : Yaml.Fault)
  /-- A value of TOML cannot be made. -/
  | toml (fault : Toml.Fault)
  /-- The names of settings cannot be listed. -/
  | names (fault : Fault)
  deriving DecidableEq, Repr

/-- The message of a breakdown. -/
def Breakdown.message : Breakdown → Text
  | nullInPath => Files.Fault.nullInPath.message
  | json count => Text.digitComplaint count
  | yaml fault => fault.message
  | toml (.tooManyDigits count) => Text.digitComplaint count
  | toml .malformed => Yaml.Fault.malformed.message
  | names fault => fault.message []

/-- Why a file of settings gives no conventions. -/
inductive LoadFault where
  /-- It is refused. -/
  | refused (refusal : Refusal)
  /-- Reading it breaks down. -/
  | broken (breakdown : Breakdown)
  deriving DecidableEq, Repr

/-- The message of a fault. -/
def LoadFault.message : LoadFault → Text
  | refused refusal => refusal.message
  | broken breakdown => breakdown.message

/-- A reader of YAML. A text that it takes for malformed is refused; any other fault is its own. -/
abbrev YamlReader := Text → Except Yaml.Fault Datum

/-- The data in a text of a format. -/
def readData (yaml : YamlReader) (path : Path) (text : Text) : Except LoadFault Datum :=
  match Format.ofPath? path with
  | none => .error (.refused (.unsupported path))
  | some .json =>
    match Json.read Text.digitLimit text with
    | .ok value => .ok (.ofJson value)
    | .error fault =>
      match fault.cause with
      | .tooManyDigits count => .error (.broken (.json count))
      | _ => .error (.refused (.malformed path (fault.message text)))
  | some .yaml =>
    match yaml text with
    | .ok data => .ok data
    | .error .malformed => .error (.refused (.malformed path Yaml.Fault.malformed.message))
    | .error fault => .error (.broken (.yaml fault))
  | some .toml =>
    match Toml.read text with
    | .ok data => .ok data
    | .error .malformed => .error (.refused (.malformed path Yaml.Fault.malformed.message))
    | .error fault => .error (.broken (.toml fault))

/-- The conventions in a table of settings. -/
def ofTable (path : Path) (entries : List (Datum × Datum)) : Except LoadFault Conventions :=
  match ofEntries entries with
  | .ok conventions => .ok conventions
  | .error (.noOrder kind other) => .error (.broken (.names (.noOrder kind other)))
  | .error (.nameKind kind) => .error (.broken (.names (.nameKind kind)))
  | .error fault => .error (.refused (.settings path fault))

/-- The conventions that data describe. Nothing at all leaves the usual ones. -/
def ofDatum (path : Path) : Datum → Except LoadFault Conventions
  | .null => .ok {}
  | .table entries =>
    match (Datum.under? sectionName entries).getD (.table entries) with
    | .table inner => ofTable path inner
    | _ => .error (.refused (.noSection path))
  | _ => .error (.refused (.noTable path))

/-- The conventions that bytes of a file describe. -/
def ofBytes (yaml : YamlReader) (path : Path) (bytes : List UInt8) :
    Except LoadFault Conventions := do
  match Utf8.decode bytes with
  | .error fault => .error (.refused (.notText path fault))
  | .ok text => ofDatum path (← readData yaml path (Text.unifyNewlines text))

/-- Reads conventions from a file. -/
def load {m : Type → Type} [Monad m] (files : Files.System m) (yaml : YamlReader) (path : Path) :
    m (Except LoadFault Conventions) := do
  match ← (files.read path).run with
  | .error .nullInPath => return .error (.broken .nullInPath)
  | .error fault => return .error (.refused (.unreadable path fault))
  | .ok bytes => return ofBytes yaml path bytes

end SourceLoom.Settings
