import SourceLoom.Text.Numeral
import SourceLoom.Text.Quoted

/-!
# Faults in written patterns

What can be wrong with the text of a pattern. Most complaints point at a place of the text, and in
a text of several lines also at a line and a column.
-/

namespace SourceLoom.Pattern

/-- What a written pattern is refused for. -/
inductive Complaint where
  /-- A backslash ends the text. -/
  | endingBackslash
  /-- A backslash before a letter or digit that means nothing there. -/
  | badEscape (escape : Text)
  /-- Too few digits follow an escape by number. -/
  | incompleteEscape (escape : Text)
  /-- An octal escape is above 377. -/
  | largeOctal (escape : Text)
  /-- An escape by name lacks its brace. -/
  | missingBrace
  /-- An escape by name has an unknown name. -/
  | unknownCharacter (name : Text)
  /-- A name is empty. -/
  | missingName (what : Text)
  /-- A name does not end. -/
  | unterminatedName (terminator : Char)
  /-- A reference to a group that is not closed yet. -/
  | openGroup
  /-- A reference to a group of the same condition on what precedes. -/
  | groupOfSameBehind
  /-- A reference to a group that does not exist. -/
  | invalidGroup (index : Nat)
  /-- A reference to a name that no group has. -/
  | unknownGroup (name : Text)
  /-- The name of a group is no identifier. -/
  | badGroupName (name : Text)
  /-- Group zero where a group is needed. -/
  | badGroupNumber
  /-- Two groups have one name. -/
  | redefinedGroup (name : Text) (index former : Nat)
  /-- A set does not end. -/
  | unterminatedSet
  /-- A range whose ends are no characters or in the wrong order. -/
  | badRange (first last : Text)
  /-- A repetition asks for more than it allows. -/
  | leastAboveMost
  /-- Nothing precedes a repetition. -/
  | nothingToRepeat
  /-- A repetition is repeated. -/
  | multipleRepeat
  /-- The text ends inside a special group. -/
  | unexpectedEnd
  /-- A special group of no known kind. -/
  | unknownExtension (extension : Text)
  /-- A group does not end. -/
  | unterminatedGroup
  /-- A comment does not end. -/
  | unterminatedComment
  /-- A choice by a group has a third branch. -/
  | manyBranches
  /-- A parenthesis closes nothing. -/
  | unbalanced
  /-- Flags for the whole pattern that do not come first. -/
  | lateFlags
  /-- The flag that texts do not have. -/
  | localeFlag
  /-- Two flags that exclude each other. -/
  | clashingFlags
  /-- No mark follows the flags. -/
  | missingFlagsEnd
  /-- No flag follows the minus sign. -/
  | missingFlag
  /-- No colon follows the flags. -/
  | missingColon
  /-- A letter that is no flag. -/
  | unknownFlag
  /-- A flag that only the whole pattern can have is turned on in a group. -/
  | globalFlagOn
  /-- A flag that only the whole pattern can have is turned off. -/
  | globalFlagOff
  /-- A flag that only can be exchanged is turned off. -/
  | kindFlagOff
  /-- A flag is turned on and off at once. -/
  | flagOnAndOff
  /-- A condition on what precedes whose pieces differ in length. -/
  | varyingBehind
  /-- A condition on what precedes with too long a piece. -/
  | farBehind
  /-- A repetition in a pattern that allows none. -/
  | unsupported (repetition : Text)
  deriving DecidableEq, Repr

/-- The words of a complaint. -/
def Complaint.words : Complaint → Text
  | endingBackslash => "bad escape (end of pattern)".toList
  | badEscape escape => "bad escape ".toList ++ escape
  | incompleteEscape escape => "incomplete escape ".toList ++ escape
  | largeOctal escape =>
    "octal escape value ".toList ++ escape ++ " outside of range 0-0o377".toList
  | missingBrace => "missing \x7b".toList
  | unknownCharacter name => "undefined character name ".toList ++ name.quoted
  | missingName what => "missing ".toList ++ what
  | unterminatedName terminator =>
    "missing ".toList ++ terminator :: ", unterminated name".toList
  | openGroup => "cannot refer to an open group".toList
  | groupOfSameBehind =>
    "cannot refer to group defined in the same lookbehind subpattern".toList
  | invalidGroup index => "invalid group reference ".toList ++ Text.ofNat index
  | unknownGroup name => "unknown group name ".toList ++ name.quoted
  | badGroupName name => "bad character in group name ".toList ++ name.quoted
  | badGroupNumber => "bad group number".toList
  | redefinedGroup name index former =>
    "redefinition of group name ".toList ++ name.quoted ++ " as group ".toList ++
      Text.ofNat index ++ "; was group ".toList ++ Text.ofNat former
  | unterminatedSet => "unterminated character set".toList
  | badRange first last => "bad character range ".toList ++ first ++ '-' :: last
  | leastAboveMost => "min repeat greater than max repeat".toList
  | nothingToRepeat => "nothing to repeat".toList
  | multipleRepeat => "multiple repeat".toList
  | unexpectedEnd => "unexpected end of pattern".toList
  | unknownExtension extension => "unknown extension ?".toList ++ extension
  | unterminatedGroup => "missing ), unterminated subpattern".toList
  | unterminatedComment => "missing ), unterminated comment".toList
  | manyBranches => "conditional backref with more than two branches".toList
  | unbalanced => "unbalanced parenthesis".toList
  | lateFlags => "global flags not at the start of the expression".toList
  | localeFlag => "bad inline flags: cannot use 'L' flag with a str pattern".toList
  | clashingFlags => "bad inline flags: flags 'a', 'u' and 'L' are incompatible".toList
  | missingFlagsEnd => "missing -, : or )".toList
  | missingFlag => "missing flag".toList
  | missingColon => "missing :".toList
  | unknownFlag => "unknown flag".toList
  | globalFlagOn => "bad inline flags: cannot turn on global flag".toList
  | globalFlagOff => "bad inline flags: cannot turn off global flag".toList
  | kindFlagOff => "bad inline flags: cannot turn off flags 'a', 'u' and 'L'".toList
  | flagOnAndOff => "bad inline flags: flag turned on and off".toList
  | varyingBehind => "look-behind requires fixed-width pattern".toList
  | farBehind => "looks too much behind".toList
  | unsupported repetition =>
    "internal: unsupported template operator ".toList ++ repetition

/-- Why a text is no pattern. -/
inductive Fault where
  /-- A complaint, with the place it points at. -/
  | refused (complaint : Complaint) (position : Option Nat)
  /-- A repetition asks for more rounds than can be counted. -/
  | tooManyRounds
  /-- The number of rounds has so many digits that it is not read. -/
  | tooManyDigits (count : Nat)
  /-- Flags for the whole pattern that exclude each other. -/
  | clashingKinds
  deriving DecidableEq, Repr

/-- The line and the column of a place in a text, both counted from one. -/
def lineAndColumn (position : Nat) (text : Text) : Nat × Nat :=
  let before := text.take position
  (before.count '\n' + 1, (before.reverse.takeWhile (· ≠ '\n')).length + 1)

/-- The message of a fault in a text. -/
def Fault.message (text : Text) : Fault → Text
  | refused complaint none => complaint.words
  | refused complaint (some position) =>
    complaint.words ++ " at position ".toList ++ Text.ofNat position ++
      (if '\n' ∈ text then
        let place := lineAndColumn position text
        " (line ".toList ++ Text.ofNat place.1 ++ ", column ".toList ++ Text.ofNat place.2 ++ [')']
      else [])
  | tooManyRounds => "the repetition number is too large".toList
  | tooManyDigits count => Text.digitComplaint count
  | clashingKinds => "ASCII and UNICODE flags are incompatible".toList

end SourceLoom.Pattern
