import SourceLoom.Options.Switch
import SourceLoom.Text.Numeral
import SourceLoom.Text.Quoted

/-!
# Faults of a command line

What can be wrong with the words of a command line, and the messages that say so. A message about
a switch names all its spellings.
-/

namespace SourceLoom.Options

/-- What is wrong with a command line. -/
inductive Fault where
  /-- A word is the beginning of several spellings. -/
  | ambiguous (word : Text) (spellings : List Text)
  /-- A switch lacks its values. -/
  | lacking (switch : Switch)
  /-- A value is attached to a switch that takes none. -/
  | ignored (switch : Switch) (attached : Text)
  /-- The value of a switch is none of its choices. -/
  | noChoice (switch : Switch) (value : Text) (choices : List Text)
  /-- The value of a switch is no whole number. -/
  | noNumber (switch : Switch) (value : Text)
  /-- The value of a switch is below zero. -/
  | negative (switch : Switch) (number : Int)
  /-- Some words belong to no switch. -/
  | unrecognized (words : List Text)
  deriving DecidableEq, Repr

/-- A message about a switch. -/
def Switch.complaint (switch : Switch) (message : Text) : Text :=
  "argument ".toList ++ switch.name ++ ": ".toList ++ message

/-- What a switch lacks. -/
def Arity.lack : Arity → Text
  | .many => "expected at least one argument".toList
  | _ => "expected one argument".toList

/-- The message of a fault. -/
def Fault.message : Fault → Text
  | ambiguous word spellings =>
    "ambiguous option: ".toList ++ word ++ " could match ".toList ++
      Text.join ", ".toList spellings
  | lacking switch => switch.complaint switch.arity.lack
  | ignored switch attached =>
    switch.complaint ("ignored explicit argument ".toList ++ attached.quoted)
  | noChoice switch value choices =>
    switch.complaint ("invalid choice: ".toList ++ value.quoted ++ " (choose from ".toList ++
      Text.join ", ".toList (choices.map Text.quoted) ++ [')'])
  | noNumber switch value => switch.complaint ("invalid integer: '".toList ++ value ++ ['\''])
  | negative switch number =>
    switch.complaint ("must be a non-negative integer, got ".toList ++ Text.ofInt number)
  | unrecognized words => "unrecognized arguments: ".toList ++ Text.join [' '] words

end SourceLoom.Options
