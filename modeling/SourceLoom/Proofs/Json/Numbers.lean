import SourceLoom.Json.Reader
import SourceLoom.Proofs.Text.Digits

/-!
# Whole numbers in JSON

A whole number is read from its digits, with a minus sign or without. It ends where the text goes
on with none of the signs that may continue a number: a digit, a point or the letter of an
exponent. No word of the format begins with a digit, and the only one that begins with a minus sign
goes on with a letter.
-/

namespace SourceLoom.Json

/-- A text that does not continue a whole number. -/
def EndsNumber (text : Text) : Prop :=
  ∀ c ∈ text.head?, isNumberDigit c = false ∧ c ≠ '.' ∧ c ≠ 'e' ∧ c ≠ 'E'

variable {rest : Text}

/-- Space does not continue a number. -/
theorem endsNumber_append {gap : Text} (h : ∀ c ∈ gap, isSpace c = true) (hrest : EndsNumber rest) :
    EndsNumber (gap ++ rest) := by
  cases gap with
  | nil => exact hrest
  | cons space gap =>
    intro c hc
    have hspace := h c (by simp_all)
    simp only [isSpace, Bool.or_eq_true, decide_eq_true_eq] at hspace
    rcases hspace with ((rfl | rfl) | rfl) | rfl <;> decide

/-- No fraction follows a whole number. -/
theorem fractionPart_of_endsNumber (h : EndsNumber rest) : fractionPart rest = (none, rest) := by
  unfold fractionPart
  split
  · exact absurd rfl (h '.' rfl).2.1
  · rfl

/-- No exponent follows a whole number. -/
theorem exponentPart_of_endsNumber (h : EndsNumber rest) : exponentPart rest = (none, rest) := by
  unfold exponentPart
  split
  · rename_i letter more
    obtain ⟨-, -, hsmall, hlarge⟩ := h letter rfl
    rw [if_neg (by simp [hsmall, hlarge])]
  · rfl

/-- The digits of a number are taken up to its end. -/
theorem wholePart?_ofNat (h : EndsNumber rest) (n : Nat) :
    wholePart? (Text.ofNat n ++ rest) = some (Text.ofNat n, rest) := by
  by_cases hzero : n = 0
  · rw [hzero]
    rfl
  · have hdigits : ∀ c ∈ Text.ofNat n, isNumberDigit c = true :=
      fun c hc => Text.isDigit_of_mem_ofNat hc
    have hfirst := Text.head?_ofNat hzero
    have hstop : rest.takeWhile isNumberDigit = [] ∧ rest.dropWhile isNumberDigit = rest := by
      cases rest with
      | nil => exact ⟨rfl, rfl⟩
      | cons c rest =>
        have hc := (h c rfl).1
        simp [hc]
    cases htext : Text.ofNat n with
    | nil => exact absurd htext Nat.toDigits_ne_nil
    | cons c digits =>
      rw [htext] at hdigits hfirst
      obtain ⟨hc, hmore⟩ := List.forall_mem_cons.mp hdigits
      rw [List.cons_append, wholePart?, if_pos hc, List.takeWhile_append_of_pos hmore,
        List.dropWhile_append_of_pos hmore, hstop.1, hstop.2, List.append_nil]
      exact fun heq => hfirst (congrArg some heq)

/-- A whole number is read from its digits. -/
theorem number?_ofNat (h : EndsNumber rest) (negative : Bool) (n : Nat) :
    number? negative (Text.ofNat n ++ rest) =
      some (.int (if negative then -(n : Int) else n), rest) := by
  have hvalue : numberOf (Text.ofNat n) = n := Text.valueOfDigits_ofNat n
  rw [number?, wholePart?_ofNat h]
  simp [fractionPart_of_endsNumber h, exponentPart_of_endsNumber h, hvalue]

/-- A whole number begins with a digit. -/
theorem exists_ofNat_eq_cons (n : Nat) :
    ∃ c text, Text.ofNat n = c :: text ∧ isNumberDigit c = true := by
  cases htext : Text.ofNat n with
  | nil => exact absurd htext Nat.toDigits_ne_nil
  | cons c text =>
    have hc : c ∈ Text.ofNat n := htext ▸ List.mem_cons_self
    exact ⟨c, text, rfl, Text.isDigit_of_mem_ofNat hc⟩

/-- Where so many digits are not too many, fewer are not. -/
theorem exceeds_mono {limit : Option Nat} {fewer more : Nat} (hle : fewer ≤ more)
    (h : exceeds limit more = false) : exceeds limit fewer = false := by
  cases limit with
  | none => rfl
  | some most =>
    simp only [exceeds, Option.any_some, decide_eq_false_iff_not] at h ⊢
    omega

/-- A number keeps within a limit if, where it is a whole number, its digits are not too many. -/
theorem withinLimit_append {limit : Option Nat} {digits : Text} (value : Json)
    (h : ∀ n, value = .int n → exceeds limit digits.length = false) (rest : Text) :
    withinLimit limit (digits ++ rest) (value, rest) = .ok (value, rest) := by
  cases value with
  | int n => simp [withinLimit, h n rfl]
  | _ => rfl

/-- A number that keeps within a limit is what was read, and the digits of a whole number are not
too many. -/
theorem withinLimit_eq_ok {limit : Option Nat} {text : Text} {found result : Json × Text}
    (h : withinLimit limit text found = .ok result) :
    result = found ∧ ∀ n, found.1 = .int n →
      exceeds limit (text.length - found.2.length) = false := by
  obtain ⟨value, left⟩ := found
  cases value with
  | int n =>
    rw [withinLimit] at h
    split at h
    · cases h
    · rename_i hcount
      cases h
      exact ⟨rfl, fun _ _ => eq_false_of_ne_true hcount⟩
  | _ =>
    cases h
    exact ⟨rfl, nofun⟩

/-- A text is the sign it may begin with and what comes after it. -/
theorem append_afterSign (text : Text) :
    (if (afterSign text).1 then ['-'] else []) ++ (afterSign text).2 = text := by
  unfold afterSign
  split <;> rfl

section Scalars

variable {limit : Option Nat}

/-- A number that begins with a digit is no word. -/
theorem scalar_of_digit {c : Char} (hc : isNumberDigit c = true) {text : Text}
    {found : Json × Text} (h : number? false (c :: text) = some found)
    (hlimit : withinLimit limit (c :: text) found = .ok found) :
    scalar limit (c :: text) = .ok found := by
  have hne (other : Char) (hother : isNumberDigit other = false) : other ≠ c := by
    rintro rfl
    exact absurd hc (by simp [hother])
  have hminus : c ≠ '-' := (hne '-' (by decide)).symm
  unfold scalar
  split
  · rename_i word hword
    simp [words, Text.dropLeading?, hne 'n' (by decide), hne 't' (by decide),
      hne 'f' (by decide), hne 'N' (by decide), hne 'I' (by decide), hne '-' (by decide)] at hword
  · have hsign : afterSign (c :: text) = (false, c :: text) := by
      rw [afterSign]
      exact fun rest heq => hminus (List.cons.inj heq).1
    simp only [hsign, h, hlimit]

/-- A number with a minus sign is no word. -/
theorem scalar_of_minus {c : Char} (hc : isNumberDigit c = true) {text : Text}
    {found : Json × Text} (h : number? true (c :: text) = some found)
    (hlimit : withinLimit limit (c :: text) found = .ok found) :
    scalar limit ('-' :: c :: text) = .ok found := by
  have hne : 'I' ≠ c := by
    rintro rfl
    cases hc
  unfold scalar
  split
  · rename_i word hword
    simp [words, Text.dropLeading?, hne] at hword
  · have hsign : afterSign ('-' :: c :: text) = (true, c :: text) := rfl
    simp only [hsign, h, hlimit]

/-- A whole number is read as a number, if its digits are not too many. -/
theorem scalar_ofInt (h : EndsNumber rest) {n : Int}
    (hlimit : exceeds limit (Text.ofNat n.natAbs).length = false) :
    scalar limit (Text.ofInt n ++ rest) = .ok (.int n, rest) := by
  cases n with
  | ofNat n =>
    obtain ⟨c, text, htext, hc⟩ := exists_ofNat_eq_cons n
    have hnumber := number?_ofNat h false n
    have hwithin := withinLimit_append (.int n) (fun _ _ => hlimit) rest
    have hint : Text.ofInt (Int.ofNat n) = Text.ofNat n := rfl
    rw [Int.ofNat_eq_natCast, Int.natAbs_natCast, htext] at hwithin
    rw [htext] at hnumber
    rw [hint, htext]
    exact scalar_of_digit hc hnumber hwithin
  | negSucc n =>
    obtain ⟨c, text, htext, hc⟩ := exists_ofNat_eq_cons (n + 1)
    have hnumber := number?_ofNat h true (n + 1)
    have hwithin := withinLimit_append (.int (.negSucc n)) (fun _ _ => hlimit) rest
    have hint : Text.ofInt (Int.negSucc n) = '-' :: Text.ofNat (n + 1) := rfl
    rw [Int.natAbs_negSucc, Nat.succ_eq_add_one, htext] at hwithin
    rw [htext] at hnumber
    rw [hint, htext]
    exact scalar_of_minus hc hnumber hwithin

end Scalars

end SourceLoom.Json
