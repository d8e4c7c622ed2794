import SourceLoom.Minify
import SourceLoom.Options.Help
import SourceLoom.Options.Word
import SourceLoom.Outline

/-!
# Options of a run

What a command line asks for. The switches are applied in their order, so that a later use of a
switch outweighs an earlier one, and asking for help or for the version ends the reading at once.
Words that belong to no switch are a fault, but only after everything else has been read.
-/

namespace SourceLoom

/-- What a command line asks for. -/
structure Options where
  /-- The directory to scan. -/
  directory : Text := ['.']
  /-- The entries whose imports are followed. -/
  entries : Option (List Text) := none
  /-- The most imports from an entry to a file. -/
  depth : Option Nat := none
  /-- The file of settings. -/
  settings : Option Text := none
  /-- The pattern for the names of files. -/
  pattern : Option Text := none
  /-- The pattern for the paths that are ignored. -/
  ignored : Option Text := none
  /-- The file that is written. -/
  output : Text := "output.txt".toList
  /-- The text at the end of the document. -/
  prompt : Option Text := none
  /-- Whether the project is drawn. -/
  drawing : Bool := true
  /-- The style of drawings. -/
  style : Outline.Style := .lines
  /-- Whether files have banners. -/
  headers : Bool := true
  /-- How far files are minified, if they are. -/
  level : Option Minify.Level := some .aggressive
  /-- Whether what was saved is shown. -/
  statistics : Bool := false
  /-- The file that the graph of imports is written to. -/
  graph : Option Text := none
  /-- How often more reports were asked for. -/
  verbosity : Nat := 0
  /-- Whether only errors are reported. -/
  quiet : Bool := false
  /-- The switches that need a value and were last given the separator in place of one. -/
  valueless : List Options.Switch := []
  deriving DecidableEq, Repr

namespace Options

/-- Why a command line asks for no run. -/
inductive Stop where
  /-- It asks for help. -/
  | help
  /-- It asks for the version. -/
  | version
  /-- Something is wrong with it. -/
  | fault (fault : Fault)
  deriving DecidableEq, Repr

/-- The exit code that tells why there was no run. -/
def Stop.exitCode : Stop → Nat
  | help | version => 0
  | fault _ => 2

/-- What is shown instead of a run. -/
def Stop.shown : Stop → Text
  | help => helpText
  | version => versionText
  | fault _ => []

/-- The complaint about a command line. -/
def Stop.complaint : Stop → Text
  | help | version => []
  | fault cause => programName ++ ": error: ".toList ++ cause.message ++ ['\n']

/-- A bound on depths that a value gives. -/
def depthOf (value : Text) : Except Fault Nat :=
  match Text.toInt? value with
  | none => .error (.noNumber .depth value)
  | some number => if number < 0 then .error (.negative .depth number) else .ok number.toNat

/-- The style that a value names. -/
def styleOf (value : Text) : Except Fault Outline.Style :=
  match Outline.Style.named? value with
  | some style => .ok style
  | none => .error (.noChoice .style value (Outline.Style.all.map (·.1)))

/-- The level that a value names. -/
def levelOf (value : Text) : Except Fault Minify.Level :=
  match Minify.Level.named? value with
  | some level => .ok level
  | none => .error (.noChoice .minify value (Minify.Level.all.map (·.name)))

/-- The options after a switch that needs a value was given one. Without a value, they are what
they are without the switch. -/
def setValue (options : Options) (switch : Switch) (value : Option Text) :
    Except Fault Options := do
  let usual : Options := {}
  match switch with
  | .directory => return { options with directory := value.getD usual.directory }
  | .depth => return { options with depth := ← value.mapM depthOf }
  | .settings => return { options with settings := value }
  | .pattern => return { options with pattern := value }
  | .ignored => return { options with ignored := value }
  | .output => return { options with output := value.getD usual.output }
  | .prompt => return { options with prompt := value }
  | .style => return { options with style := (← value.mapM styleOf).getD usual.style }
  | .graph => return { options with graph := value }
  | _ => return options

/-- The options in which a switch has a value or lacks it. -/
def markValue (options : Options) (switch : Switch) (present : Bool) : Options :=
  let others := options.valueless.filter (· ≠ switch)
  { options with valueless := if present then others else switch :: others }

/-- The options after a use of a switch with some values. A separator that was attached to the
switch is no value. -/
def apply (options : Options) (use : Use) (values : List Text) : Except Stop Options :=
  let values := values.filter (· ≠ separator)
  match use.switch with
  | .help => .error .help
  | .version => .error .version
  | .entries => .ok { options with entries := some values }
  | .drawing => .ok { options with drawing := !isNegation use.spelling }
  | .headers => .ok { options with headers := !isNegation use.spelling }
  | .minify => do
    let level ← (values.head?.mapM levelOf).mapError Stop.fault
    return { options with level := some (level.getD .aggressive) }
  | .verbatim => .ok { options with level := none }
  | .statistics => .ok { options with statistics := true }
  | .verbose => .ok { options with verbosity := options.verbosity + 1 }
  | .quiet => .ok { options with quiet := true }
  | switch => do
    let options ← (options.setValue switch values.head?).mapError Stop.fault
    return options.markValue switch values.head?.isSome

/-- What has been read of a command line. -/
structure Reading where
  /-- The options so far. -/
  options : Options := {}
  /-- The words so far that belong to no switch. -/
  others : List Text := []
  deriving DecidableEq, Repr

/-- Reads a word that is no value, with the values that follow it. All switches in a word are
understood before the first of them is applied. -/
def Reading.next (reading : Reading) : Word × List Text → Except Stop Reading
  | (.use use, following) => do
    let (flags, last) ← use.unbundle.mapError Stop.fault
    let (values, left) ← (last.take following).mapError Stop.fault
    let options ← flags.foldlM (fun options flag => options.apply flag []) reading.options
    let options ← options.apply last values
    return ⟨options, reading.others ++ left⟩
  | (.value text, following) | (.stray text, following) =>
    return { reading with others := reading.others ++ text :: following }

/-- Reads a command line. -/
def read (words : List Text) : Except Stop Options := do
  let words ← (Word.ofTexts words).mapError Stop.fault
  let reading ← (grouped words).2.foldlM Reading.next { others := (grouped words).1 }
  if reading.others = [] then return reading.options
  else throw (.fault (.unrecognized reading.others))

end Options

end SourceLoom
