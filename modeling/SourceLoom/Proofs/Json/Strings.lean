import Mathlib.Tactic.SplitIfs
import SourceLoom.Json.Reader
import SourceLoom.Json.Writer
import SourceLoom.Proofs.Text.Digits

/-!
# Strings in JSON

What a string is written as is read again as the string. A character is written as itself, as an
escape by letter, as an escape by number, or beyond U+FFFF as two of them. An escape by number is
only read if something follows it, and in a string the closing quote does.
-/

namespace SourceLoom.Json

/-- Every digit to the base sixteen is read as its value. -/
theorem hexDigit?_digitChar {n : Nat} (h : n < 16) : hexDigit? (Nat.digitChar n) = some n := by
  revert n
  decide

/-- The digits of a number that fits into the width are read as the number. -/
theorem mapM_hexDigit?_hex (width : Nat) {n : Nat} (h : n < 16 ^ (width + 1)) :
    ∃ digits, (Text.hex (width + 1) n).mapM hexDigit? = some digits ∧
      digits.length = width + 1 ∧ Text.valueOfDigits 16 digits = n := by
  induction width generalizing n with
  | zero =>
    have hsmall : n < 16 := by omega
    rw [Text.hex_one hsmall]
    refine ⟨[n], ?_, rfl, ?_⟩
    · simp [hexDigit?_digitChar hsmall]
    · simp [Text.valueOfDigits]
  | succ width ih =>
    have hquotient : n / 16 < 16 ^ (width + 1) := by omega
    obtain ⟨digits, hread, hlength, hvalue⟩ := ih hquotient
    have hlast : hexDigit? (Nat.digitChar (n % 16)) = some (n % 16) :=
      hexDigit?_digitChar (by omega)
    refine ⟨digits ++ [n % 16], ?_, by simp [hlength], ?_⟩
    · rw [Text.hex_concat, List.mapM_append, hread]
      simp [hlast]
    · rw [Text.valueOfDigits_concat, hvalue]
      omega

/-- The four digits of an escape are read as its number. -/
theorem fourDigits?_hex {n : Nat} (h : n < 0x10000) (rest : Text) :
    fourDigits? (Text.hex 4 n ++ rest) = some n := by
  have hlength : (Text.hex 4 n).length = 4 := Text.length_hex (by omega)
  obtain ⟨digits, hread, hcount, hvalue⟩ := mapM_hexDigit?_hex 3 (by omega : n < 16 ^ 4)
  have hfour : digits.length = 4 := hcount
  rw [fourDigits?, List.take_left' hlength, hread]
  simp [hfour, hvalue]

/-- What follows the four digits of an escape. -/
theorem drop_hex {n : Nat} (h : n < 0x10000) (rest : Text) :
    (Text.hex 4 n ++ rest).drop 4 = rest := by
  have hlength : (Text.hex 4 n).length = 4 := Text.length_hex (by omega)
  exact List.drop_left' hlength

/-- The number of a character is no half of a pair. -/
theorem charOfNumber_toNat (c : Char) :
    isHighHalf c.toNat = false ∧ charOfNumber c.toNat = c := by
  have hvalid : c.toNat < 0xD800 ∨ 0xDFFF < c.toNat ∧ c.toNat < 0x110000 := c.valid
  have hhigh : isHighHalf c.toNat = false := by
    simp only [isHighHalf, Bool.and_eq_false_iff, decide_eq_false_iff_not]
    omega
  have hlow : isLowHalf c.toNat = false := by
    simp only [isLowHalf, Bool.and_eq_false_iff, decide_eq_false_iff_not]
    omega
  refine ⟨hhigh, ?_⟩
  rw [charOfNumber, hhigh, hlow]
  exact Char.ofNat_toNat c

/-- A character up to U+FFFF is read from its escape, if something follows. -/
theorem numberEscape_single {c : Char} (h : c.toNat < 0x10000) {rest : Text} (hrest : rest ≠ []) :
    numberEscape (Text.hex 4 c.toNat ++ rest) = .ok (c, 4) := by
  obtain ⟨hhigh, hchar⟩ := charOfNumber_toNat c
  rw [numberEscape, fourDigits?_hex h]
  dsimp only
  rw [drop_hex h, if_neg hrest, hhigh, hchar]

/-- The first of the two numbers that write a character beyond U+FFFF. -/
def highHalf (c : Char) : Nat := 0xD800 + (c.toNat - 0x10000) / 0x400

/-- The second of the two numbers that write a character beyond U+FFFF. -/
def lowHalf (c : Char) : Nat := 0xDC00 + (c.toNat - 0x10000) % 0x400

/-- A character beyond U+FFFF is written by its two halves, which tell it. -/
theorem halves_spec {c : Char} (h : 0x10000 ≤ c.toNat) :
    (0xD800 ≤ highHalf c ∧ highHalf c ≤ 0xDBFF) ∧ (0xDC00 ≤ lowHalf c ∧ lowHalf c ≤ 0xDFFF) ∧
      0x10000 + (highHalf c - 0xD800) * 0x400 + (lowHalf c - 0xDC00) = c.toNat := by
  have hvalid : c.toNat < 0xD800 ∨ 0xDFFF < c.toNat ∧ c.toNat < 0x110000 := c.valid
  unfold highHalf lowHalf
  omega

/-- Each of the halves has four digits. -/
theorem length_hex_halves {c : Char} (h : 0x10000 ≤ c.toNat) :
    (Text.hex 4 (highHalf c)).length = 4 ∧ (Text.hex 4 (lowHalf c)).length = 4 := by
  obtain ⟨hhigh, hlow, -⟩ := halves_spec h
  exact ⟨Text.length_hex (by omega), Text.length_hex (by omega)⟩

/-- A character beyond U+FFFF is written as the escapes of its two halves. -/
theorem numberEscaped_pair {c : Char} (h : 0x10000 ≤ c.toNat) : numberEscaped c =
    '\\' :: 'u' :: Text.hex 4 (highHalf c) ++ '\\' :: 'u' :: Text.hex 4 (lowHalf c) := by
  rw [numberEscaped, if_neg (Nat.not_lt.mpr h), highHalf, lowHalf]

/-- A character beyond U+FFFF is read from its two escapes, if something follows. -/
theorem numberEscape_pair {c : Char} (h : 0x10000 ≤ c.toNat) {rest : Text} (hrest : rest ≠ []) :
    numberEscape (Text.hex 4 (highHalf c) ++
      '\\' :: 'u' :: (Text.hex 4 (lowHalf c) ++ rest)) = .ok (c, 10) := by
  obtain ⟨hhigh, hlow, hnumber⟩ := halves_spec h
  have hhighHalf : isHighHalf (highHalf c) = true := by
    simpa only [isHighHalf, Bool.and_eq_true, decide_eq_true_eq] using hhigh
  have hlowHalf : isLowHalf (lowHalf c) = true := by
    simpa only [isLowHalf, Bool.and_eq_true, decide_eq_true_eq] using hlow
  rw [numberEscape, fourDigits?_hex (by omega)]
  dsimp only
  rw [drop_hex (by omega), if_neg (List.cons_ne_nil _ _), hhighHalf]
  split
  · rename_i left heq
    cases heq
    rw [drop_hex (by omega), if_neg hrest, fourDigits?_hex (by omega)]
    dsimp only
    rw [if_pos hlowHalf, hnumber, Char.ofNat_toNat]
  · rename_i hne
    exact absurd rfl (hne _ rfl)

/-- What still belongs to an escape is passed over. -/
theorem stringFrom_skip (escape text : Text) :
    stringFrom escape.length (escape ++ text) = stringFrom 0 text := by
  induction escape with
  | nil => rfl
  | cons c escape ih => exact ih

/-- A string is read on after its first character. -/
def withFirst (c : Char) (read : Except Stop (Text × Text)) : Except Stop (Text × Text) :=
  read.map fun (rest, left) => (c :: rest, left)

/-- An escape by number is read as what its digits write. -/
theorem stringFrom_numberEscape {digits rest : Text} {c : Char}
    (h : numberEscape (digits ++ rest) = .ok (c, digits.length)) :
    stringFrom 0 ('\\' :: 'u' :: (digits ++ rest)) = withFirst c (stringFrom 0 rest) := by
  have hskip : stringFrom (digits.length + 1) ('u' :: (digits ++ rest)) = stringFrom 0 rest :=
    stringFrom_skip ('u' :: digits) rest
  rw [stringFrom, h]
  dsimp only [bind, Except.bind]
  rw [hskip]
  cases stringFrom 0 rest <;> rfl

/-- An escape by letter is read as what the letter stands for. -/
theorem stringFrom_letter {letter c : Char} (h : escaped? letter = some c) (rest : Text) :
    stringFrom 0 ('\\' :: letter :: rest) = withFirst c (stringFrom 0 rest) := by
  have hletter : letter ≠ 'u' := by
    rintro rfl
    cases h
  have hskip : stringFrom 1 (letter :: rest) = stringFrom 0 rest := stringFrom_skip [letter] rest
  rw [stringFrom]
  · rw [h]
    dsimp only
    rw [hskip]
    cases stringFrom 0 rest <;> rfl
  · exact hletter

/-- A character that stands for itself is read as itself. -/
theorem stringFrom_plain {c : Char} (hquote : c ≠ '"') (hslash : c ≠ '\\') (hc : 0x20 ≤ c.toNat)
    (rest : Text) : stringFrom 0 (c :: rest) = withFirst c (stringFrom 0 rest) := by
  rw [stringFrom, if_neg (by omega)]
  · cases stringFrom 0 rest <;> rfl
  · exact hquote
  · exact hslash

/-- Two escapes by number are read as the character that they write together. -/
theorem stringFrom_pair {first second rest : Text} {c : Char} (hfirst : first.length = 4)
    (hsecond : second.length = 4)
    (hpair : numberEscape (first ++ '\\' :: 'u' :: (second ++ rest)) = .ok (c, 10)) :
    stringFrom 0 ('\\' :: 'u' :: first ++ '\\' :: 'u' :: second ++ rest) =
      withFirst c (stringFrom 0 rest) := by
  have hlength : (first ++ '\\' :: 'u' :: second).length = 10 := by simp [hfirst, hsecond]
  have hdigits : numberEscape ((first ++ '\\' :: 'u' :: second) ++ rest) =
      .ok (c, (first ++ '\\' :: 'u' :: second).length) := by
    rw [hlength]
    simpa using hpair
  simpa using stringFrom_numberEscape hdigits

/-- A character is read from the escapes that write it by number, if something follows. -/
theorem stringFrom_numberEscaped (c : Char) {rest : Text} (hrest : rest ≠ []) :
    stringFrom 0 (numberEscaped c ++ rest) = withFirst c (stringFrom 0 rest) := by
  by_cases hsmall : c.toNat < 0x10000
  · have hlength : (Text.hex 4 c.toNat).length = 4 := Text.length_hex (by omega)
    have hsingle : numberEscape (Text.hex 4 c.toNat ++ rest) =
        .ok (c, (Text.hex 4 c.toNat).length) := by
      rw [hlength]
      exact numberEscape_single hsmall hrest
    rw [numberEscaped, if_pos hsmall, List.cons_append, List.cons_append]
    exact stringFrom_numberEscape hsingle
  · have hlarge : 0x10000 ≤ c.toNat := Nat.not_lt.mp hsmall
    obtain ⟨hfirst, hsecond⟩ := length_hex_halves hlarge
    rw [numberEscaped_pair hlarge]
    exact stringFrom_pair hfirst hsecond (numberEscape_pair hlarge hrest)

/-- A written character is read as the character, if something follows. -/
theorem stringFrom_writtenChar (asciiOnly : Bool) (c : Char) {rest : Text} (hrest : rest ≠ []) :
    stringFrom 0 (writtenChar asciiOnly c ++ rest) = withFirst c (stringFrom 0 rest) := by
  unfold writtenChar
  split_ifs with hquote hslash hfeed hreturn htab hform hback hescape
  · rw [hquote]
    exact stringFrom_letter rfl rest
  · rw [hslash]
    exact stringFrom_letter rfl rest
  · rw [hfeed]
    exact stringFrom_letter rfl rest
  · rw [hreturn]
    exact stringFrom_letter rfl rest
  · rw [htab]
    exact stringFrom_letter rfl rest
  · rw [hform]
    exact stringFrom_letter rfl rest
  · rw [hback]
    exact stringFrom_letter rfl rest
  · exact stringFrom_numberEscaped c hrest
  · exact stringFrom_plain hquote hslash (by omega) rest

/-- Written characters up to the closing quote are read as the text. -/
theorem stringFrom_written (asciiOnly : Bool) (text rest : Text) :
    stringFrom 0 (text.flatMap (writtenChar asciiOnly) ++ '"' :: rest) = .ok (text, rest) := by
  induction text with
  | nil => rfl
  | cons c text ih =>
    have hne : text.flatMap (writtenChar asciiOnly) ++ '"' :: rest ≠ [] := by simp
    rw [List.flatMap_cons, List.append_assoc, stringFrom_writtenChar asciiOnly c hne, ih]
    rfl

/-- A written string is read as the text. -/
theorem quotedString_written (asciiOnly : Bool) (text rest : Text) :
    quotedString (writtenString asciiOnly text ++ rest) = .ok (text, rest) := by
  have hinner : (writtenString asciiOnly text ++ rest).drop 1 =
      text.flatMap (writtenChar asciiOnly) ++ '"' :: rest := by
    simp [writtenString]
  rw [quotedString, hinner, stringFrom_written]
  rfl

end SourceLoom.Json
