import SourceLoom.Proofs.Json.Grammar

/-!
# Numbers beyond the limit

Reading under a limit on digits ends at a whole number that exceeds it, and then this number stands
in the text: a run of as many digits as the fault tells, which are more than the limit. No other
part of a text ends the reading this way.
-/

namespace SourceLoom.Json

/-- A run of so many digits stands in a text. -/
def HasDigits (text : Text) (count : Nat) : Prop :=
  ∃ digits, digits <:+: text ∧ digits.length = count ∧ ∀ c ∈ digits, isNumberDigit c = true

/-- An answer for a text tells of too many digits only where they stand in the text. -/
def IsFaithful {α : Type} (limit : Option Nat) (text : Text) (answer : Except Stop α) : Prop :=
  ∀ count left, answer = .error ⟨.tooManyDigits count, left⟩ →
    exceeds limit count = true ∧ HasDigits text count

namespace IsFaithful

variable {α β : Type} {limit : Option Nat} {text part : Text}

/-- An answer without a fault tells of nothing. -/
theorem ok (found : α) : IsFaithful limit text (.ok found) := by
  rintro count left ⟨⟩

/-- A fault of another kind tells of no digits. -/
theorem error {cause : Cause} (h : ∀ count, cause ≠ .tooManyDigits count) (left : Nat) :
    IsFaithful limit text (.error ⟨cause, left⟩ : Except Stop α) := by
  intro count other heq
  cases heq
  exact absurd rfl (h count)

/-- What stands in a part of a text stands in the text. -/
theorem of_part {answer : Except Stop α} (h : IsFaithful limit part answer)
    (hpart : part <:+: text) : IsFaithful limit text answer := by
  intro count left heq
  obtain ⟨hcount, digits, hdigits, hrun⟩ := h count left heq
  exact ⟨hcount, digits, hdigits.trans hpart, hrun⟩

/-- Two steps tell of digits that stand in the text if both do. -/
theorem bind {first : Except Stop α} {next : α → Except Stop β}
    (hfirst : IsFaithful limit text first)
    (hnext : ∀ found, first = .ok found → IsFaithful limit text (next found)) :
    IsFaithful limit text (first >>= next) := by
  cases first with
  | error stop =>
    intro count left heq
    cases heq
    exact hfirst count left rfl
  | ok found => exact hnext found rfl

end IsFaithful

section Strings

variable {limit : Option Nat} {text : Text}

/-- An escape by number tells of no digits. -/
theorem isFaithful_numberEscape (digits : Text) :
    IsFaithful limit text (numberEscape digits) := by
  unfold numberEscape
  split
  · exact .error (by rintro _ ⟨⟩) _
  · split
    · exact .error (by rintro _ ⟨⟩) _
    · split
      · split
        · exact .ok _
        · split
          · exact .error (by rintro _ ⟨⟩) _
          · split <;> exact .ok _
      · exact .ok _

/-- The rest of a string tells of no digits. -/
theorem isFaithful_stringFrom (skip : Nat) (rest : Text) :
    IsFaithful limit text (stringFrom skip rest) := by
  induction skip, rest using stringFrom.induct with
  | case1 skip => cases skip <;> exact .error (by rintro _ ⟨⟩) _
  | case2 skip c rest ih => exact ih
  | case3 rest => exact .ok _
  | case4 => exact .error (by rintro _ ⟨⟩) _
  | case5 digits ih =>
    rw [stringFrom]
    exact (isFaithful_numberEscape digits).bind fun found _ => (ih found.2).bind fun _ _ => .ok _
  | case6 letter rest hletter hnone =>
    rw [stringFrom, hnone]
    · exact .error (by rintro _ ⟨⟩) _
    · exact hletter
  | case7 letter rest hletter c hsome ih =>
    rw [stringFrom, hsome]
    · exact ih.bind fun _ _ => .ok _
    · exact hletter
  | case8 c rest hquote hslash hcontrol =>
    rw [stringFrom, if_pos hcontrol]
    · exact .error (by rintro _ ⟨⟩) _
    · exact hquote
    · exact hslash
  | case9 c rest hquote hslash hcontrol ih =>
    rw [stringFrom, if_neg hcontrol]
    · exact ih.bind fun _ _ => .ok _
    · exact hquote
    · exact hslash

/-- A string in quotes tells of no digits. -/
theorem isFaithful_quotedString (quoted : Text) :
    IsFaithful limit text (quotedString quoted) := by
  intro count left heq
  rw [quotedString] at heq
  cases hrest : stringFrom 0 (quoted.drop 1) with
  | ok found =>
    rw [hrest] at heq
    cases heq
  | error stop =>
    rw [hrest] at heq
    obtain ⟨cause, place⟩ := stop
    change (Except.error (Stop.ofString quoted ⟨cause, place⟩) :
      Except Stop (Text × Text)) = _ at heq
    rw [Stop.ofString] at heq
    split at heq
    · cases heq
    · cases heq
      exact isFaithful_stringFrom 0 (quoted.drop 1) count left hrest

end Strings

section Values

variable {limit : Option Nat} {fuel : Nat}

/-- A whole number beyond the limit stands at the beginning of the text. -/
theorem isFaithful_scalar (text : Text) : IsFaithful limit text (scalar limit text) := by
  intro count left heq
  unfold scalar at heq
  split at heq
  · cases heq
  · dsimp only at heq
    split at heq
    · rename_i found hfound
      obtain ⟨value, rest⟩ := found
      cases value with
      | int n =>
        rw [withinLimit] at heq
        split at heq
        · rename_i hexceeds
          cases heq
          obtain ⟨c, more, htext, -, -, -, hvalue⟩ := number?_cut hfound
          obtain ⟨-, hdigits⟩ := hvalue.resolve_left (by rintro ⟨_, ⟨⟩⟩)
          have hcount : (afterSign text).2.length - rest.length = (c :: more).length := by
            rw [htext, List.length_append, Nat.add_sub_cancel]
          refine ⟨hexceeds, c :: more, ?_, hcount.symm, hdigits⟩
          have hpart : c :: more <:+: (afterSign text).2 := by
            rw [htext]
            exact (List.prefix_append _ _).isInfix
          have hsuffix : (afterSign text).2 <:+ text := ⟨_, append_afterSign text⟩
          exact hpart.trans hsuffix.isInfix
        · cases heq
      | _ => cases heq
    · cases heq

/-- What comes after space is a part of the text. -/
theorem skipSpace_isInfix (text : Text) : skipSpace text <:+: text :=
  (List.dropWhile_suffix isSpace).isInfix

/-- What is left after a value is a part of the text. -/
theorem left_isInfix {text left : Text} {value : Json}
    (h : valueFrom limit fuel text = .ok (value, left)) : left <:+: text := by
  obtain ⟨used, rfl, -⟩ := (derives_of_reading fuel).1 h
  exact (List.suffix_append used left).isInfix

/-- At a depth, values, items and members tell of digits that stand in the text. -/
structure AreFaithful (limit : Option Nat) (fuel : Nat) : Prop where
  /-- Values do. -/
  values : ∀ text, IsFaithful limit text (valueFrom limit fuel text)
  /-- Items do. -/
  items : ∀ text, IsFaithful limit text (itemsFrom limit fuel text)
  /-- Members do, whatever members there are already. -/
  members : ∀ before text, IsFaithful limit text (membersFrom limit fuel before text)

/-- A value tells of digits in the text if what is in it does. -/
theorem AreFaithful.value_succ (h : AreFaithful limit fuel) (text : Text) :
    IsFaithful limit text (valueFrom limit (fuel + 1) text) := by
  unfold valueFrom
  split
  · exact (isFaithful_quotedString _).bind fun _ _ => .ok _
  · rename_i rest
    have hrest : skipSpace rest <:+: '[' :: rest :=
      (skipSpace_isInfix rest).trans (List.suffix_cons _ _).isInfix
    split
    · exact .ok _
    · exact ((h.items _).of_part hrest).bind fun _ _ => .ok _
  · rename_i rest
    have hrest : skipSpace rest <:+: '\x7b' :: rest :=
      (skipSpace_isInfix rest).trans (List.suffix_cons _ _).isInfix
    split
    · exact .ok _
    · exact ((h.members [] _).of_part hrest).bind fun _ _ => .ok _
  · exact isFaithful_scalar text

/-- What comes after a sign and space is a part of the text in which the sign stands. -/
theorem next_isInfix {text left rest : Text} {sign : Char} (h : skipSpace left = sign :: rest)
    (hleft : left <:+: text) : skipSpace rest <:+: text := by
  have hrest : rest <:+: skipSpace left := h ▸ (List.suffix_cons sign rest).isInfix
  exact (skipSpace_isInfix rest).trans (hrest.trans ((skipSpace_isInfix left).trans hleft))

/-- Items tell of digits in the text if the first value and the items after it do. -/
theorem AreFaithful.items_succ (h : AreFaithful limit fuel) (text : Text) :
    IsFaithful limit text (itemsFrom limit (fuel + 1) text) := by
  rw [itemsFrom]
  refine (h.values text).bind fun found hfound => ?_
  obtain ⟨item, left⟩ := found
  dsimp only
  split
  · exact .ok _
  · rename_i rest hcomma
    have hrest := next_isInfix hcomma (left_isInfix hfound)
    exact ((h.items _).of_part hrest).bind fun _ _ => .ok _
  · exact .error (by rintro _ ⟨⟩) _

/-- Members tell of digits in the text if the first value and the members after it do. -/
theorem AreFaithful.members_succ (h : AreFaithful limit fuel) (before : List (Text × Json))
    (text : Text) : IsFaithful limit text (membersFrom limit (fuel + 1) before text) := by
  unfold membersFrom
  split
  · rename_i rest
    refine (isFaithful_quotedString _).bind fun found hname => ?_
    obtain ⟨name, left⟩ := found
    obtain ⟨body, rfl, -⟩ := spells_of_quotedString hname
    have hleft : left <:+: '"' :: (body ++ '"' :: left) :=
      ⟨'"' :: (body ++ ['"']), [], by simp⟩
    dsimp only
    split
    · rename_i next hcolon
      have hnext := next_isInfix hcolon hleft
      refine ((h.values _).of_part hnext).bind fun found hfound => ?_
      obtain ⟨value, after⟩ := found
      have hafter := (left_isInfix hfound).trans hnext
      dsimp only
      split
      · exact .ok _
      · rename_i more hcomma
        exact (h.members _ _).of_part (next_isInfix hcomma hafter)
      · exact .error (by rintro _ ⟨⟩) _
    · exact .error (by rintro _ ⟨⟩) _
  · exact .error (by rintro _ ⟨⟩) _

/-- At every depth, what is told of digits is true. -/
theorem areFaithful (limit : Option Nat) (fuel : Nat) : AreFaithful limit fuel := by
  induction fuel with
  | zero =>
    exact ⟨fun _ => .error (by rintro _ ⟨⟩) _, fun _ => .error (by rintro _ ⟨⟩) _,
      fun _ _ => .error (by rintro _ ⟨⟩) _⟩
  | succ fuel ih => exact ⟨ih.value_succ, ih.items_succ, ih.members_succ⟩

/-- Where reading ends at too many digits, they stand in the text and are more than the limit. -/
theorem digits_of_read {text : Text} {count position : Nat}
    (h : read limit text = .error ⟨.tooManyDigits count, position⟩) :
    exceeds limit count = true ∧ HasDigits text count := by
  have hall : IsFaithful limit text (readAll limit text) := by
    unfold readAll
    split
    · exact .error (by rintro _ ⟨⟩) _
    · refine (((areFaithful limit _).values _).of_part (skipSpace_isInfix text)).bind
        fun found _ => ?_
      dsimp only
      split
      · exact .ok _
      · exact .error (by rintro _ ⟨⟩) _
  rw [read] at h
  cases hread : readAll limit text with
  | ok value =>
    rw [hread] at h
    cases h
  | error stop =>
    rw [hread] at h
    obtain ⟨cause, left⟩ := stop
    cases h
    exact hall count left hread

end Values

end SourceLoom.Json
