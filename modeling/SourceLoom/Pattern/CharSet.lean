import SourceLoom.Text.Blank
import SourceLoom.Text.LetterCase
import SourceLoom.Text.Word

/-!
# Sets of characters in patterns

A pattern names characters one by one, by ranges and by classes, and a set of them may be negated.
Where case is ignored, a character belongs to a set when its lower-case form, or a letter of the
same kin, is the lower-case form of a member; a set without any cased letter ignores nothing.
-/

namespace SourceLoom.Pattern

/-- How letters of different case compare. -/
inductive CaseRule where
  /-- Only a letter itself counts. -/
  | exact
  /-- The two cases of a letter of ASCII count as one. -/
  | ascii
  /-- All cases of a letter count as one. -/
  | unicode
  deriving DecidableEq, Repr

/-- A class of characters. -/
inductive CharClass where
  /-- The decimal digits. -/
  | digit
  /-- The blanks. -/
  | blank
  /-- The word characters. -/
  | word
  deriving DecidableEq, Repr

/-- The members of a class, in ASCII or altogether. -/
def CharClass.has (ascii : Bool) : CharClass → Char → Bool
  | digit, c => if ascii then '0' ≤ c && c ≤ '9' else Text.isDigit c
  | blank, c =>
    if ascii then c = ' ' || (0x9 ≤ c.toNat && c.toNat ≤ 0xD) else Text.isBlank c
  | word, c => if ascii then Text.isAsciiWord c else Text.isWord c

/-- One item of a set. -/
inductive CharItem where
  /-- A single character. -/
  | one (c : Char)
  /-- All characters from the first to the last. -/
  | range (first last : Char)
  /-- A class, or all that is outside it. -/
  | inClass (kind : CharClass) (negated ascii : Bool)
  deriving DecidableEq, Repr

/-- A set of characters. -/
structure CharSet where
  /-- Whether the items say what is not in the set. -/
  negated : Bool
  /-- The items. -/
  items : List CharItem
  /-- How cases compare. -/
  caseRule : CaseRule
  deriving DecidableEq, Repr

/-- The lower-case form of a character under a rule. -/
def CaseRule.lower : CaseRule → Char → Char
  | exact, c => c
  | ascii, c => c.toLower
  | unicode, c => Text.lower c

/-- The lower-case forms that count as the given lower-case form. -/
def CaseRule.kin : CaseRule → Char → List Char
  | unicode, c => c :: Text.kin c
  | _, c => [c]

/-- The characters with a given lower-case form, the form itself included. -/
def CaseRule.raise : CaseRule → Char → List Char
  | exact, c => [c]
  | ascii, c => [c, c.toUpper]
  | unicode, c =>
    c :: Text.capitals.filterMap fun (first, last, step, shift) =>
      let n := ((c.toNat : Int) - shift).toNat
      if first ≤ n ∧ n ≤ last ∧ (n - first) % step = 0 then some (Char.ofNat n) else none

/-- Whether a character has cases under a rule. -/
def CaseRule.isCased : CaseRule → Char → Bool
  | exact, _ => false
  | ascii, c => c.isAlpha
  | unicode, c => Text.isCased c

namespace CharItem

/-- Whether an item has a character as it stands. -/
def has : CharItem → Char → Bool
  | one member, c => member = c
  | range first last, c => first.toNat ≤ c.toNat && c.toNat ≤ last.toNat
  | inClass kind negated ascii, c => kind.has ascii c != negated

/-- Whether an item has a character in some case. -/
def hasInAnyCase (rule : CaseRule) : CharItem → Char → Bool
  | inClass kind negated ascii, c => kind.has ascii (rule.lower c) != negated
  | item, c => (rule.kin (rule.lower c)).any fun low => (rule.raise low).any item.has

/-- Whether an item names a character that has cases. -/
def isCased (rule : CaseRule) : CharItem → Bool
  | one c => rule.isCased c
  | range first last =>
    match rule with
    | .exact => false
    | .ascii => ('A'.toNat ≤ last.toNat && first.toNat ≤ 'Z'.toNat) ||
        ('a'.toNat ≤ last.toNat && first.toNat ≤ 'z'.toNat)
    | .unicode => Text.casedLetters.any fun cased =>
        cased.1 ≤ last.toNat && first.toNat ≤ cased.2
  | inClass _ _ _ => false

end CharItem

namespace CharSet

/-- Whether a character is in a set. -/
def has (set : CharSet) (c : Char) : Bool :=
  let listed :=
    if set.items.any (CharItem.isCased set.caseRule) then
      set.items.any (CharItem.hasInAnyCase set.caseRule · c)
    else set.items.any (CharItem.has · c)
  listed != set.negated

/-- The set of one character. -/
def one (c : Char) : CharSet := ⟨false, [.one c], .exact⟩

/-- The set of the characters of a list. -/
def of (members : List Char) : CharSet := ⟨false, members.map .one, .exact⟩

/-- All characters but those of a list. -/
def outside (members : List Char) : CharSet := ⟨true, members.map .one, .exact⟩

/-- The blanks. -/
def blank : CharSet := ⟨false, [.inClass .blank false false], .exact⟩

/-- The word characters. -/
def word : CharSet := ⟨false, [.inClass .word false false], .exact⟩

/-- A set of listed characters has exactly those. -/
theorem has_of (members : List Char) (c : Char) : (of members).has c = true ↔ c ∈ members := by
  simp [of, has, CharItem.isCased, CaseRule.isCased, CharItem.has]

/-- The complement of a list has exactly the others. -/
theorem has_outside (members : List Char) (c : Char) :
    (outside members).has c = true ↔ c ∉ members := by
  simp [outside, has, CharItem.isCased, CaseRule.isCased, CharItem.has]
  exact ⟨fun h member => h c member rfl, fun h x member same => h (same ▸ member)⟩

/-- The set of blanks has exactly the blanks. -/
theorem has_blank (c : Char) : blank.has c = Text.isBlank c := by
  simp [blank, has, CharItem.isCased, CharItem.has, CharClass.has]

/-- The set of word characters has exactly those. -/
theorem has_word (c : Char) : word.has c = Text.isWord c := by
  simp [word, has, CharItem.isCased, CharItem.has, CharClass.has]

end CharSet

end SourceLoom.Pattern
