import Mathlib.Algebra.Group.Nat.Defs
import SourceLoom.Text.Numeral
import SourceLoom.Text.Quoted

/-!
# Written numbers

A number is told by its decimal digits, and only zero begins with a zero. To the base sixteen a
number has as many digits as the width asks for, if it fits into them, and the last digit is what
is left of it after sixteens.
-/

namespace SourceLoom.Text

/-- A further digit counts once, and all before it count by the base. -/
theorem valueOfDigits_concat (base : Nat) (digits : List Nat) (digit : Nat) :
    valueOfDigits base (digits ++ [digit]) = valueOfDigits base digits * base + digit := by
  simp only [valueOfDigits, List.foldl_append, List.foldl_cons, List.foldl_nil]

/-- A decimal number has digits alone. -/
theorem isDigit_of_mem_ofNat {n : Nat} {c : Char} (h : c ∈ ofNat n) : c.isDigit = true :=
  Nat.isDigit_of_mem_toDigits (by decide) (by decide) h

/-- The decimal digits of a number tell it. -/
theorem valueOfDigits_ofNat (n : Nat) :
    valueOfDigits 10 ((ofNat n).map fun c => c.toNat - '0'.toNat) = n := by
  have hvalue : Nat.ofDigitChars 10 (Nat.toDigits 10 n) 0 = n := Nat.ofDigitChars_ten_toDigits
  rw [Nat.ofDigitChars_eq_foldl] at hvalue
  simp only [valueOfDigits, ofNat, List.foldl_map, Nat.mul_comm _ 10]
  exact hvalue

/-- No number but zero begins with a zero. -/
theorem head?_ofNat {n : Nat} (h : n ≠ 0) : (ofNat n).head? ≠ some '0' := by
  induction n using Nat.strongRecOn with
  | ind n ih =>
    rw [ofNat, Nat.toDigits_eq_if (by decide)]
    split
    · simpa using h
    · rename_i hlarge
      have hquotient : n / 10 ≠ 0 := by omega
      have hfirst := ih (n / 10) (by omega) hquotient
      have hne : Nat.toDigits 10 (n / 10) ≠ [] := Nat.toDigits_ne_nil
      obtain ⟨c, digits, hdigits⟩ := List.exists_cons_of_ne_nil hne
      rw [ofNat, hdigits] at hfirst
      rw [hdigits]
      exact hfirst

/-- The last digit to the base sixteen comes after those of the sixteens. -/
theorem hex_concat (width n : Nat) :
    hex (width + 2) n = hex (width + 1) (n / 16) ++ [Nat.digitChar (n % 16)] := by
  unfold hex
  by_cases hsmall : n < 16
  · have hquotient : n / 16 = 0 := by omega
    have hrest : n % 16 = n := by omega
    rw [Nat.toDigits_of_lt_base hsmall, hquotient, hrest, Nat.toDigits_zero]
    have hzeros : List.replicate (width + 1) '0' = List.replicate width '0' ++ ['0'] :=
      List.replicate_succ'
    simp [hzeros]
  · rw [Nat.toDigits_of_base_le (by decide) (by omega)]
    simp

/-- A number that fits has as many digits as the width asks for. -/
theorem length_hex {width n : Nat} (h : n < 16 ^ (width + 1)) :
    (hex (width + 1) n).length = width + 1 := by
  have hfits : (Nat.toDigits 16 n).length ≤ width + 1 :=
    (Nat.length_toDigits_le_iff (by decide) (by omega)).mpr h
  unfold hex
  rw [List.length_append, List.length_replicate]
  omega

/-- A number of one digit to the base sixteen. -/
theorem hex_one {n : Nat} (h : n < 16) : hex 1 n = [Nat.digitChar n] := by
  unfold hex
  rw [Nat.toDigits_of_lt_base h]
  rfl

end SourceLoom.Text
