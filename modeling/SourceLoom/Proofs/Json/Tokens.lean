import Mathlib.Data.List.Infix
import Mathlib.Data.List.TakeWhile
import SourceLoom.Json.Writer
import SourceLoom.Proofs.Json.Numbers

/-!
# Words and numbers in JSON

A word or a number is read from a token: a stretch without the signs that separate tokens. What
comes after it has no part in the reading, so that the token alone is read as the same value. Each
part of a number ends where its digits end, and this stays so when some of what follows is cut off.
Written anew, a word has the same length, and a whole number has at most the digits that it was read
from, as those may only begin with a zero if they are that zero.
-/

namespace SourceLoom.Json

/-- Whether a character separates words and numbers. -/
def isSeparator (c : Char) : Bool :=
  isSpace c || c ∈ ['[', ']', '\x7b', '\x7d', ':', ',', '"']

/-- A stretch without separators. -/
def IsToken (text : Text) : Prop := text ≠ [] ∧ ∀ c ∈ text, isSeparator c = false

/-- Whether a character may stand in a number. -/
def isNumeral (c : Char) : Bool := isNumberDigit c || c ∈ ['-', '+', '.', 'e', 'E']

/-- A digit has one of ten numbers. -/
theorem isNumberDigit_iff {c : Char} :
    isNumberDigit c = true ↔ '0'.toNat ≤ c.toNat ∧ c.toNat ≤ '9'.toNat := by
  simp only [isNumberDigit, Bool.and_eq_true, decide_eq_true_eq, Char.le_def,
    UInt32.le_iff_toNat_le]
  rfl

/-- What may stand in a number separates nothing. -/
theorem not_isSeparator_of_isNumeral {c : Char} (h : isNumeral c = true) :
    isSeparator c = false := by
  rw [Bool.eq_false_iff]
  intro hc
  simp only [isSeparator, isSpace, Bool.or_eq_true, decide_eq_true_eq, List.mem_cons,
    List.not_mem_nil, or_false] at hc
  rcases hc with (((rfl | rfl) | rfl) | rfl) | (rfl | rfl | rfl | rfl | rfl | rfl | rfl) <;> cases h

/-- A digit may stand in a number. -/
theorem isNumeral_of_digit {c : Char} (h : isNumberDigit c = true) : isNumeral c = true := by
  rw [isNumeral, h]
  rfl

section Parts

variable {text left : Text}

/-- The first characters of a kind are the same when some of what follows them is cut off. -/
theorem span_cut (p : Char → Bool) (text : Text) {rest : Text} (h : rest <+: text.dropWhile p) :
    (text.takeWhile p ++ rest).takeWhile p = text.takeWhile p ∧
      (text.takeWhile p ++ rest).dropWhile p = rest := by
  have htaken : ∀ c ∈ text.takeWhile p, p c = true := fun c hc => List.mem_takeWhile_imp hc
  have hrest : rest.takeWhile p = [] ∧ rest.dropWhile p = rest := by
    cases rest with
    | nil => exact ⟨rfl, rfl⟩
    | cons c rest =>
      obtain ⟨more, hmore⟩ := h
      have hfirst := List.head?_dropWhile_not p text
      rw [← hmore] at hfirst
      have hc : p c = false := hfirst
      exact ⟨List.takeWhile_cons_of_neg (by simp [hc]), List.dropWhile_cons_of_neg (by simp [hc])⟩
  rw [List.takeWhile_append_of_pos htaken, List.dropWhile_append_of_pos htaken, hrest.1, hrest.2,
    List.append_nil]
  exact ⟨rfl, rfl⟩

/-- The whole part of a number is made of digits, and is read the same when some of what follows is
cut off. -/
theorem wholePart?_cut {digits : Text} (h : wholePart? text = some (digits, left)) :
    text = digits ++ left ∧ digits ≠ [] ∧ (∀ c ∈ digits, isNumberDigit c = true) ∧
      ∀ rest, rest <+: left → wholePart? (digits ++ rest) = some (digits, rest) := by
  unfold wholePart? at h
  split at h
  · cases h
    exact ⟨rfl, List.cons_ne_nil _ _, by decide, fun rest _ => rfl⟩
  · rename_i c text hzero
    split at h
    · rename_i hc
      cases h
      refine ⟨?_, List.cons_ne_nil _ _, ?_, fun rest hrest => ?_⟩
      · rw [List.cons_append, List.takeWhile_append_dropWhile]
      · exact List.forall_mem_cons.mpr ⟨hc, fun d hd => List.mem_takeWhile_imp hd⟩
      · obtain ⟨htaken, hleft⟩ := span_cut isNumberDigit text hrest
        rw [List.cons_append, wholePart?, if_pos hc, htaken, hleft]
        exact hzero
    · cases h
  · cases h

/-- A text that does not begin with a point and a digit begins with no fraction. -/
theorem fractionPart_of_forall (h : ∀ c rest, text = '.' :: c :: rest → isNumberDigit c = false) :
    fractionPart text = (none, text) := by
  unfold fractionPart
  split
  · rename_i c rest
    rw [if_neg (by simp [h c rest rfl])]
  · rfl

/-- A fraction is made of signs of numbers, and is read the same when some of what follows is cut
off. -/
theorem fractionPart_cut {fraction : Option Text} (h : fractionPart text = (fraction, left)) :
    ∃ used, text = used ++ left ∧ (∀ c ∈ used, isNumeral c = true) ∧
      (fraction = none → used = []) ∧
      ∀ rest, rest <+: left → fractionPart (used ++ rest) = (fraction, rest) := by
  by_cases hpoint : ∃ c rest, text = '.' :: c :: rest ∧ isNumberDigit c = true
  · obtain ⟨c, text, rfl, hc⟩ := hpoint
    rw [fractionPart, if_pos hc] at h
    cases h
    refine ⟨'.' :: c :: text.takeWhile isNumberDigit, ?_, ?_, nofun, fun rest hrest => ?_⟩
    · rw [List.cons_append, List.cons_append, List.takeWhile_append_dropWhile]
    · refine List.forall_mem_cons.mpr ⟨by decide, List.forall_mem_cons.mpr ⟨?_, fun d hd => ?_⟩⟩
      · exact isNumeral_of_digit hc
      · exact isNumeral_of_digit (List.mem_takeWhile_imp hd)
    · obtain ⟨htaken, hleft⟩ := span_cut isNumberDigit text hrest
      rw [List.cons_append, List.cons_append, fractionPart, if_pos hc, htaken, hleft]
  · have hnone : ∀ c rest, text = '.' :: c :: rest → isNumberDigit c = false :=
      fun c rest htext => Bool.eq_false_iff.mpr fun hc => hpoint ⟨c, rest, htext, hc⟩
    rw [fractionPart_of_forall hnone] at h
    cases h
    refine ⟨[], rfl, nofun, fun _ => rfl,
      fun rest hrest => fractionPart_of_forall fun c more heq => ?_⟩
    obtain ⟨after, hafter⟩ := hrest
    have htext : text = '.' :: c :: (more ++ after) := by
      rw [← hafter, ← List.nil_append rest, heq]
      rfl
    exact hnone c (more ++ after) htext

/-- The sign of an exponent, and what comes after it. -/
def exponentSign : Text → Bool × Text
  | '-' :: more => (true, more)
  | '+' :: more => (false, more)
  | more => (false, more)

/-- An exponent needs a digit after its letter and its sign. -/
theorem exponentPart_cons (letter : Char) (rest : Text) :
    exponentPart (letter :: rest) =
      if letter = 'e' ∨ letter = 'E' then
        let digits := (exponentSign rest).2.takeWhile isNumberDigit
        if digits = [] then (none, letter :: rest)
        else (some (if (exponentSign rest).1 then -(numberOf digits : Int) else numberOf digits),
          (exponentSign rest).2.dropWhile isNumberDigit)
      else (none, letter :: rest) :=
  rfl

/-- The sign of an exponent is the same whatever comes after its first digit. -/
theorem exponentSign_cut {negative : Bool} {digits : Text}
    (h : exponentSign text = (negative, digits)) :
    ∃ sign, text = sign ++ digits ∧ (∀ c ∈ sign, isNumeral c = true) ∧
      ∀ d more, isNumberDigit d = true → exponentSign (sign ++ d :: more) = (negative, d :: more) := by
  unfold exponentSign at h
  split at h
  · cases h
    exact ⟨['-'], rfl, by decide, fun d more _ => rfl⟩
  · cases h
    exact ⟨['+'], rfl, by decide, fun d more _ => rfl⟩
  · cases h
    refine ⟨[], rfl, nofun, fun d more hd => ?_⟩
    unfold exponentSign
    split
    · rename_i heq
      cases heq
      cases hd
    · rename_i heq
      cases heq
      cases hd
    · rfl

/-- An exponent is made of signs of numbers, and is read the same on its own. -/
theorem exponentPart_cut {exponent : Option Int} (h : exponentPart text = (exponent, left)) :
    ∃ used, text = used ++ left ∧ (∀ c ∈ used, isNumeral c = true) ∧
      (exponent = none → used = []) ∧ exponentPart used = (exponent, []) := by
  have hempty (htext : exponentPart text = (none, text)) :
      ∃ used, text = used ++ left ∧ (∀ c ∈ used, isNumeral c = true) ∧
        (exponent = none → used = []) ∧ exponentPart used = (exponent, []) := by
    rw [htext] at h
    cases h
    exact ⟨[], rfl, nofun, fun _ => rfl, rfl⟩
  cases text with
  | nil => exact hempty rfl
  | cons letter rest =>
    by_cases hletter : letter = 'e' ∨ letter = 'E'
    · cases hsign : exponentSign rest with
      | mk negative digits =>
        obtain ⟨sign, rfl, hnumerals, hcut⟩ := exponentSign_cut hsign
        cases hdigits : digits.takeWhile isNumberDigit with
        | nil => exact hempty (by rw [exponentPart_cons, if_pos hletter, hsign]; simp [hdigits])
        | cons d more =>
          have hrun : ∀ c ∈ d :: more, isNumberDigit c = true := fun c hc =>
            List.mem_takeWhile_imp (hdigits ▸ hc)
          have hspan := span_cut isNumberDigit digits List.nil_prefix
          rw [List.append_nil, hdigits] at hspan
          rw [exponentPart_cons, if_pos hletter, hsign] at h
          simp only [hdigits, reduceCtorEq, if_false, Prod.mk.injEq] at h
          obtain ⟨rfl, rfl⟩ := h
          refine ⟨letter :: (sign ++ d :: more), ?_, ?_, nofun, ?_⟩
          · rw [← hdigits, List.cons_append, List.append_assoc, List.takeWhile_append_dropWhile]
          · refine List.forall_mem_cons.mpr ⟨by rcases hletter with rfl | rfl <;> decide, ?_⟩
            exact List.forall_mem_append.mpr
              ⟨hnumerals, fun c hc => isNumeral_of_digit (hrun c hc)⟩
          · rw [exponentPart_cons, if_pos hletter, hcut d more (hrun d List.mem_cons_self)]
            simp [hspan.1, hspan.2]
    · exact hempty (by rw [exponentPart_cons, if_neg hletter])

/-- The value of the parts of a number. -/
def numberValue (negative : Bool) (whole : Text) (fraction : Option Text)
    (exponent : Option Int) : Json :=
  match fraction, exponent with
  | none, none => .int (if negative then -(numberOf whole : Int) else numberOf whole)
  | _, _ => .float (.ofDecimal negative (numberOf (whole ++ fraction.getD []))
      (exponent.getD 0 - (fraction.getD []).length))

/-- A number is read part by part. -/
theorem number?_eq {whole afterWhole afterFraction : Text} {fraction : Option Text}
    {exponent : Option Int} (negative : Bool) (hwhole : wholePart? text = some (whole, afterWhole))
    (hfraction : fractionPart afterWhole = (fraction, afterFraction))
    (hexponent : exponentPart afterFraction = (exponent, left)) :
    number? negative text = some (numberValue negative whole fraction exponent, left) := by
  rw [number?, hwhole]
  cases fraction <;> cases exponent <;> simp [hfraction, hexponent, numberValue]

/-- A number begins with a digit, is made of signs of numbers, and is read the same on its own. A
whole number is made of its digits. -/
theorem number?_cut {negative : Bool} {value : Json}
    (h : number? negative text = some (value, left)) :
    ∃ c more, text = c :: more ++ left ∧ isNumberDigit c = true ∧
      (∀ d ∈ c :: more, isNumeral d = true) ∧ number? negative (c :: more) = some (value, []) ∧
      ((∃ x, value = .float x) ∨
        value = .int (if negative then -(numberOf (c :: more) : Int) else numberOf (c :: more)) ∧
          ∀ d ∈ c :: more, isNumberDigit d = true) := by
  cases hwhole : wholePart? text with
  | none =>
    rw [number?, hwhole] at h
    cases h
  | some parts =>
    obtain ⟨whole, afterWhole⟩ := parts
    cases hfraction : fractionPart afterWhole with
    | mk fraction afterFraction =>
    cases hexponent : exponentPart afterFraction with
    | mk exponent rest =>
    rw [number?_eq negative hwhole hfraction hexponent] at h
    cases h
    obtain ⟨rfl, hne, hdigits, hwholeCut⟩ := wholePart?_cut hwhole
    obtain ⟨middle, rfl, hmiddle, hnoFraction, hfractionCut⟩ := fractionPart_cut hfraction
    obtain ⟨last, rfl, hlast, hnoExponent, hexponentCut⟩ := exponentPart_cut hexponent
    obtain ⟨c, digits, rfl⟩ := List.exists_cons_of_ne_nil hne
    have halone : number? negative (c :: digits ++ (middle ++ last)) =
        some (numberValue negative (c :: digits) fraction exponent, []) := by
      refine number?_eq negative (hwholeCut _ ?_) (hfractionCut _ ?_) hexponentCut
      · rw [← List.append_assoc]
        exact List.prefix_append _ _
      · exact List.prefix_append _ _
    refine ⟨c, digits ++ (middle ++ last), by simp, hdigits c List.mem_cons_self, ?_, halone, ?_⟩
    · refine List.forall_mem_cons.mpr ⟨isNumeral_of_digit (hdigits c List.mem_cons_self), ?_⟩
      refine List.forall_mem_append.mpr ⟨fun d hd => ?_, List.forall_mem_append.mpr ⟨hmiddle, hlast⟩⟩
      exact isNumeral_of_digit (hdigits d (List.mem_cons_of_mem c hd))
    · cases fraction with
      | some places => exact Or.inl ⟨_, rfl⟩
      | none =>
        cases exponent with
        | some power => exact Or.inl ⟨_, rfl⟩
        | none =>
          rw [hnoFraction rfl, hnoExponent rfl, List.append_nil, List.append_nil]
          exact Or.inr ⟨rfl, hdigits⟩

end Parts

section Scalars

variable {limit : Option Nat} {text left : Text} {value : Json}

/-- A number of so many digits is less than that power of ten. -/
theorem valueOfDigits_lt {digits : List Nat} (h : ∀ digit ∈ digits, digit < 10) :
    Text.valueOfDigits 10 digits < 10 ^ digits.length := by
  induction digits using List.reverseRecOn with
  | nil => decide
  | append_singleton digits digit ih =>
    obtain ⟨hdigits, hdigit⟩ := List.forall_mem_append.mp h
    have hvalue := ih hdigits
    have hlast := hdigit digit (List.mem_singleton_self digit)
    rw [Text.valueOfDigits_concat, List.length_append, List.length_singleton, Nat.pow_succ]
    omega

/-- A whole number is written with no more digits than it was read from. -/
theorem length_ofNat_le {digits : Text} (hne : digits ≠ [])
    (h : ∀ c ∈ digits, isNumberDigit c = true) :
    (Text.ofNat (numberOf digits)).length ≤ digits.length := by
  have hdigits : ∀ digit ∈ digits.map fun c => c.toNat - '0'.toNat, digit < 10 := by
    intro digit hdigit
    obtain ⟨c, hc, rfl⟩ := List.mem_map.mp hdigit
    obtain ⟨hlow, hhigh⟩ := isNumberDigit_iff.mp (h c hc)
    have hnine : '9'.toNat = '0'.toNat + 9 := rfl
    omega
  have hlt := valueOfDigits_lt hdigits
  rw [List.length_map] at hlt
  exact (Nat.length_toDigits_le_iff (by decide) (List.length_pos_iff.mpr hne)).mpr hlt

/-- A whole number below zero has one character more, and zero has no sign. -/
theorem length_ofInt_neg_le (n : Nat) : (Text.ofInt (-(n : Int))).length ≤
    (Text.ofNat n).length + 1 := by
  cases n with
  | zero => exact Nat.le_succ _
  | succ n => exact Nat.le_refl _

/-- A word is read as its value. -/
theorem scalar_word : ∀ word ∈ words, scalar limit word.1 = .ok (word.2, []) := by
  simp only [words, List.forall_mem_cons]
  exact ⟨rfl, rfl, rfl, rfl, rfl, rfl, List.forall_mem_nil _⟩

/-- A word is a token. -/
theorem isToken_word : ∀ word ∈ words, IsToken word.1 := by
  simp only [words, List.forall_mem_cons, IsToken]
  decide

/-- A word that is no number is written as it was read. -/
theorem length_write_word : ∀ word ∈ words, (∃ x, word.2 = .float x) ∨
    ∀ level, (write .compact level word.2).length ≤ word.1.length := by
  simp only [words, List.forall_mem_cons]
  exact ⟨Or.inr fun _ => Nat.le_refl _, Or.inr fun _ => Nat.le_refl _, Or.inr fun _ => Nat.le_refl _,
    Or.inl ⟨_, rfl⟩, Or.inl ⟨_, rfl⟩, Or.inl ⟨_, rfl⟩, List.forall_mem_nil _⟩

/-- A number with or without a sign is a token that is read the same on its own. Unless it is a
fraction, it is written with no more characters than the token has. -/
theorem number?_token {negative : Bool} {found : Json × Text}
    (h : number? negative text = some found)
    (hlimit : withinLimit limit text found = .ok (value, left)) :
    ∃ digits, text = digits ++ left ∧
      IsToken ((if negative then ['-'] else []) ++ digits) ∧
      scalar limit ((if negative then ['-'] else []) ++ digits) = .ok (value, []) ∧
      ((∃ x, value = .float x) ∨ ∀ level, (write .compact level value).length ≤
        ((if negative then ['-'] else []) ++ digits).length) := by
  obtain ⟨rfl, hcounts⟩ := withinLimit_eq_ok hlimit
  obtain ⟨c, more, htext, hc, hnumerals, halone, hvalue⟩ := number?_cut h
  have hwithin : withinLimit limit (c :: more) (value, []) = .ok (value, []) := by
    have hcount (n : Int) (hn : value = .int n) : exceeds limit (c :: more).length = false := by
      have hcount := hcounts n hn
      rwa [htext, List.length_append, Nat.add_sub_cancel] at hcount
    simpa using withinLimit_append value hcount []
  have hseparators : ∀ d ∈ c :: more, isSeparator d = false :=
    fun d hd => not_isSeparator_of_isNumeral (hnumerals d hd)
  refine ⟨c :: more, htext, ?_, ?_, ?_⟩
  · cases negative with
    | true => exact ⟨List.cons_ne_nil _ _, List.forall_mem_cons.mpr ⟨by decide, hseparators⟩⟩
    | false => exact ⟨List.cons_ne_nil _ _, hseparators⟩
  · cases negative with
    | true => exact scalar_of_minus hc halone hwithin
    | false => exact scalar_of_digit hc halone hwithin
  · rcases hvalue with hfloat | ⟨rfl, hdigits⟩
    · exact Or.inl hfloat
    · refine Or.inr fun level => ?_
      have hlength := length_ofNat_le (List.cons_ne_nil c more) hdigits
      rw [write]
      cases negative with
      | true => exact (length_ofInt_neg_le _).trans (Nat.succ_le_succ hlength)
      | false => exact hlength

/-- A word or a number is read from a token, and the token alone is read the same. Unless it is a
fraction, it is written with no more characters than the token has. -/
theorem scalar_cut (h : scalar limit text = .ok (value, left)) :
    ∃ token, text = token ++ left ∧ IsToken token ∧ scalar limit token = .ok (value, []) ∧
      ((∃ x, value = .float x) ∨
        ∀ level, (write .compact level value).length ≤ token.length) := by
  unfold scalar at h
  split at h
  · rename_i found hfound
    cases h
    obtain ⟨⟨word, meaning⟩, hword, hdrop⟩ := List.exists_of_findSome?_eq_some hfound
    obtain ⟨rest, hrest, heq⟩ := Option.map_eq_some_iff.mp hdrop
    cases heq
    exact ⟨word, Text.dropLeading?_eq_some_iff.mp hrest, isToken_word _ hword, scalar_word _ hword,
      length_write_word _ hword⟩
  · dsimp only at h
    split at h
    · rename_i found hfound
      obtain ⟨digits, htext, htoken⟩ := number?_token hfound h
      refine ⟨_, ?_, htoken⟩
      rw [List.append_assoc, ← htext, append_afterSign]
    · cases h

/-- What is read under a limit is read without one. -/
theorem scalar_none_of_scalar {found : Json × Text} (h : scalar limit text = .ok found) :
    scalar none text = .ok found := by
  unfold scalar at h ⊢
  split at h
  · exact h
  · dsimp only at h ⊢
    split at h
    · obtain ⟨rfl, -⟩ := withinLimit_eq_ok h
      obtain ⟨value, left⟩ := found
      cases value <;> rfl
    · cases h

end Scalars

end SourceLoom.Json
