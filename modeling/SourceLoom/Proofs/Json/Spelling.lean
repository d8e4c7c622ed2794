import SourceLoom.Proofs.Json.Strings

/-!
# What stands between the quotes of a string

A string is read from what stands between its quotes, piece by piece: a character for itself, a
letter after a backslash, or one or two numbers of four digits. A string that is written anew has no
more characters than it was read from: only quotes, backslashes and control characters are escaped,
and these could not be written in any shorter way to begin with.
-/

namespace SourceLoom.Json

/-- Four digits to the base sixteen, and the number that they write. -/
structure IsNumber (digits : Text) (n : Nat) : Prop where
  /-- They are read as the number. -/
  value : fourDigits? digits = some n
  /-- There are four of them. -/
  length : digits.length = 4
  /-- Each of them is a digit. -/
  isDigit : ∀ d ∈ digits, (hexDigit? d).isSome

/-- The character that two halves write. -/
def charOfHalves (high low : Nat) : Char :=
  Char.ofNat (0x10000 + (high - 0xD800) * 0x400 + (low - 0xDC00))

/-- What may stand between the quotes of a string that is read as a text. -/
inductive Spells : Text → Text → Prop where
  /-- Nothing spells nothing. -/
  | nil : Spells [] []
  /-- A character stands for itself. -/
  | plain {c : Char} {body text : Text} (hquote : c ≠ '"') (hslash : c ≠ '\\')
      (hc : 0x20 ≤ c.toNat) (h : Spells body text) : Spells (c :: body) (c :: text)
  /-- A letter after a backslash stands for a character. -/
  | letter {letter c : Char} {body text : Text} (hletter : escaped? letter = some c)
      (h : Spells body text) : Spells ('\\' :: letter :: body) (c :: text)
  /-- A number stands for a character. -/
  | number {digits body text : Text} {n : Nat} (hdigits : IsNumber digits n)
      (h : Spells body text) : Spells ('\\' :: 'u' :: (digits ++ body)) (charOfNumber n :: text)
  /-- Two halves stand for a character. -/
  | pair {first second body text : Text} {high low : Nat} (hfirst : IsNumber first high)
      (hhigh : isHighHalf high = true) (hsecond : IsNumber second low)
      (hlow : isLowHalf low = true) (h : Spells body text) :
      Spells ('\\' :: 'u' :: (first ++ '\\' :: 'u' :: (second ++ body)))
        (charOfHalves high low :: text)

section Reading

variable {text left : Text} {c : Char}

/-- Digits that are read are as many as their values, and each of them is one. -/
theorem mapM_hexDigit? {digits : Text} {values : List Nat}
    (h : digits.mapM hexDigit? = some values) :
    digits.length = values.length ∧ ∀ d ∈ digits, (hexDigit? d).isSome := by
  induction digits generalizing values with
  | nil =>
    cases h
    exact ⟨rfl, nofun⟩
  | cons d digits ih =>
    rw [List.mapM_cons] at h
    obtain ⟨value, hvalue, hrest⟩ := Option.bind_eq_some_iff.mp h
    obtain ⟨more, hmore, hvalues⟩ := Option.bind_eq_some_iff.mp hrest
    cases hvalues
    obtain ⟨hlength, hdigits⟩ := ih hmore
    exact ⟨congrArg (· + 1) hlength,
      List.forall_mem_cons.mpr ⟨Option.isSome_of_eq_some hvalue, hdigits⟩⟩

/-- Four digits are read from the beginning of a text. -/
theorem isNumber_take {n : Nat} (h : fourDigits? text = some n) : IsNumber (text.take 4) n := by
  have htake : (text.take 4).take 4 = text.take 4 := List.take_of_length_le (List.length_take_le 4 _)
  have hvalue : fourDigits? (text.take 4) = some n := by rwa [fourDigits?, htake]
  obtain ⟨values, hvalues, hfour⟩ := Option.bind_eq_some_iff.mp h
  obtain ⟨hlength, hdigits⟩ := mapM_hexDigit? hvalues
  split at hfour
  · rename_i hcount
    exact ⟨hvalue, hlength.trans hcount, hdigits⟩
  · cases hfour

/-- An escape by number is one number, or two halves. -/
theorem numberEscape_cases {size : Nat} (h : numberEscape text = .ok (c, size)) :
    (∃ digits rest n, text = digits ++ rest ∧ IsNumber digits n ∧ size = 4 ∧ c = charOfNumber n) ∨
      ∃ first second rest high low, text = first ++ '\\' :: 'u' :: (second ++ rest) ∧
        IsNumber first high ∧ isHighHalf high = true ∧ IsNumber second low ∧
        isLowHalf low = true ∧ size = 10 ∧ c = charOfHalves high low := by
  unfold numberEscape at h
  split at h
  · cases h
  · rename_i high hfirst
    have hnumber := isNumber_take hfirst
    have htext := (List.take_append_drop 4 text).symm
    have hsingle (h : Except.ok (charOfNumber high, 4) =
      (.ok (c, size) : Except Stop (Char × Nat))) :
        ∃ digits rest n, text = digits ++ rest ∧ IsNumber digits n ∧ size = 4 ∧
          c = charOfNumber n := by
      cases h
      exact ⟨_, _, high, htext, hnumber, rfl, rfl⟩
    split at h
    · cases h
    · split at h
      · rename_i rest hhigh hrest
        split at h
        · exact Or.inl (hsingle h)
        · split at h
          · cases h
          · rename_i low hlast
            split at h
            · rename_i hlow
              obtain ⟨rfl, rfl⟩ := Prod.mk.inj (Except.ok.inj h)
              rw [hrest, ← List.take_append_drop 4 rest] at htext
              exact Or.inr ⟨_, _, _, high, low, htext, hnumber, hhigh, isNumber_take hlast, hlow,
                rfl, rfl⟩
            · exact Or.inl (hsingle h)
      · exact Or.inl (hsingle h)

/-- A string that is read after its first character is read on. -/
theorem withFirst_eq_ok {read : Except Stop (Text × Text)} {name : Text}
    (h : withFirst c read = .ok (name, left)) :
    ∃ rest, read = .ok (rest, left) ∧ name = c :: rest := by
  cases read with
  | error stop => cases h
  | ok found =>
    cases h
    exact ⟨_, rfl, rfl⟩

/-- A string that is read goes on after a piece of its text that stands for one character. -/
def GoesOn (text name left : Text) : Prop :=
  ∃ piece rest c more, text = piece ++ rest ∧ piece ≠ [] ∧ name = c :: more ∧
    stringFrom 0 rest = .ok (more, left) ∧
    ∀ body, Spells body more → Spells (piece ++ body) (c :: more)

/-- After an escape by number, a string goes on. -/
theorem goesOn_of_number {name : Text}
    (h : stringFrom 0 ('\\' :: 'u' :: text) = .ok (name, left)) :
    GoesOn ('\\' :: 'u' :: text) name left := by
  cases hescape : numberEscape text with
  | error stop =>
    rw [stringFrom, hescape] at h
    cases h
  | ok found =>
    obtain ⟨c, size⟩ := found
    rcases numberEscape_cases hescape with ⟨digits, rest, n, rfl, hdigits, rfl, rfl⟩ |
      ⟨first, second, rest, high, low, rfl, hfirst, hhigh, hsecond, hlow, hsize, hc⟩
    · rw [stringFrom_numberEscape (by rw [hdigits.length]; exact hescape)] at h
      obtain ⟨more, hrest, rfl⟩ := withFirst_eq_ok h
      exact ⟨'\\' :: 'u' :: digits, rest, _, more, rfl, List.cons_ne_nil _ _, rfl, hrest,
        fun body hbody => .number hdigits hbody⟩
    · have htext : '\\' :: 'u' :: (first ++ '\\' :: 'u' :: (second ++ rest)) =
          '\\' :: 'u' :: first ++ '\\' :: 'u' :: second ++ rest := by simp
      rw [hsize, hc] at hescape
      rw [htext, stringFrom_pair hfirst.length hsecond.length hescape] at h
      obtain ⟨more, hrest, rfl⟩ := withFirst_eq_ok h
      refine ⟨'\\' :: 'u' :: first ++ '\\' :: 'u' :: second, rest, _, more, htext,
        List.cons_ne_nil _ _, rfl, hrest, fun body hbody => ?_⟩
      have hpair : '\\' :: 'u' :: first ++ '\\' :: 'u' :: second ++ body =
          '\\' :: 'u' :: (first ++ '\\' :: 'u' :: (second ++ body)) := by simp
      rw [hpair]
      exact .pair hfirst hhigh hsecond hlow hbody

/-- After an escape, a string goes on. -/
theorem goesOn_of_escape {name : Text} (h : stringFrom 0 ('\\' :: text) = .ok (name, left)) :
    GoesOn ('\\' :: text) name left := by
  cases text with
  | nil => cases h
  | cons letter text =>
    by_cases hletter : letter = 'u'
    · subst hletter
      exact goesOn_of_number h
    · cases hescape : escaped? letter with
      | none =>
        rw [stringFrom, hescape] at h
        · cases h
        · exact hletter
      | some c =>
        rw [stringFrom_letter hescape] at h
        obtain ⟨more, hrest, rfl⟩ := withFirst_eq_ok h
        exact ⟨['\\', letter], text, c, more, rfl, List.cons_ne_nil _ _, rfl, hrest,
          fun body hbody => .letter hescape hbody⟩

/-- A string goes on after each character but its closing quote. -/
theorem goesOn_of_stringFrom {name : Text} (hquote : c ≠ '"')
    (h : stringFrom 0 (c :: text) = .ok (name, left)) : GoesOn (c :: text) name left := by
  by_cases hslash : c = '\\'
  · subst hslash
    exact goesOn_of_escape h
  · by_cases hcontrol : c.toNat < 0x20
    · rw [stringFrom, if_pos hcontrol] at h
      · cases h
      · exact hquote
      · exact hslash
    · have hplain := Nat.not_lt.mp hcontrol
      rw [stringFrom_plain hquote hslash hplain] at h
      obtain ⟨more, hrest, rfl⟩ := withFirst_eq_ok h
      exact ⟨[c], text, c, more, rfl, List.cons_ne_nil _ _, rfl, hrest,
        fun body hbody => .plain hquote hslash hplain hbody⟩

/-- A string is read from what stands up to its closing quote. -/
theorem spells_of_stringFrom {name : Text} (h : stringFrom 0 text = .ok (name, left)) :
    ∃ body, text = body ++ '"' :: left ∧ Spells body name := by
  induction hlength : text.length using Nat.strongRecOn generalizing text name with
  | ind length ih =>
    cases text with
    | nil => cases h
    | cons c text =>
      by_cases hquote : c = '"'
      · subst hquote
        cases h
        exact ⟨[], rfl, .nil⟩
      · obtain ⟨piece, rest, d, more, htext, hpiece, rfl, hrest, hspells⟩ :=
          goesOn_of_stringFrom hquote h
        have hshort : rest.length < length := by
          have hpositive := List.length_pos_iff.mpr hpiece
          rw [← hlength, htext, List.length_append]
          omega
        obtain ⟨body, rfl, hbody⟩ := ih rest.length hshort hrest rfl
        exact ⟨piece ++ body, by rw [htext, List.append_assoc], hspells body hbody⟩

/-- A string is read from its quotes and what stands between them. -/
theorem spells_of_quotedString {name : Text} (h : quotedString ('"' :: text) = .ok (name, left)) :
    ∃ body, text = body ++ '"' :: left ∧ Spells body name := by
  have hstring : stringFrom 0 text = .ok (name, left) := by
    unfold quotedString at h
    rw [List.drop_one, List.tail_cons] at h
    cases hread : stringFrom 0 text with
    | error stop =>
      rw [hread] at h
      cases h
    | ok found =>
      rw [hread] at h
      exact h
  exact spells_of_stringFrom hstring

/-- What is written between quotes spells the text. -/
theorem spells_written (asciiOnly : Bool) (text : Text) :
    Spells (text.flatMap (writtenChar asciiOnly)) text := by
  obtain ⟨body, hbody, hspells⟩ := spells_of_stringFrom (stringFrom_written asciiOnly text [])
  rwa [List.append_cancel_right hbody]

end Reading

section Length

variable {c : Char} {body text : Text}

/-- A character is written with at most six characters, as an escape by number has. -/
theorem length_writtenChar_le (c : Char) : (writtenChar false c).length ≤ 6 := by
  unfold writtenChar
  split_ifs with hquote hslash hfeed hreturn htab hform hback hescape
  iterate 7 exact Nat.le_add_left 2 4
  · have hsmall : c.toNat < 0x20 := hescape.resolve_right fun h => h.1
    have hdigits : (Text.hex 4 c.toNat).length = 4 := Text.length_hex (by omega)
    have hlength : (numberEscaped c).length = 4 + 1 + 1 := by
      rw [numberEscaped, if_pos (by omega), List.length_cons, List.length_cons, hdigits]
    exact Nat.le_of_eq hlength
  · exact Nat.le_add_left 1 5

/-- A character that a letter after a backslash stands for is written with at most two. -/
theorem length_writtenChar_letter {letter : Char} (h : escaped? letter = some c) :
    (writtenChar false c).length ≤ 2 := by
  unfold escaped? at h
  split at h
  iterate 8
    · cases h
      decide
  · cases h

/-- A character that stands for itself is written as itself. -/
theorem writtenChar_plain (hquote : c ≠ '"') (hslash : c ≠ '\\') (hc : 0x20 ≤ c.toNat) :
    writtenChar false c = [c] := by
  have hne (control : Char) (hcontrol : control.toNat < 0x20) : c ≠ control := by
    rintro rfl
    omega
  rw [writtenChar, if_neg hquote, if_neg hslash, if_neg (hne _ (by decide)),
    if_neg (hne _ (by decide)), if_neg (hne _ (by decide)), if_neg (hne _ (by decide)),
    if_neg (hne _ (by decide)), if_neg (by simp; omega)]

/-- A string is written with no more characters than it is read from. -/
theorem Spells.length_written_le (h : Spells body text) :
    (text.flatMap (writtenChar false)).length ≤ body.length := by
  induction h with
  | nil => exact Nat.le_refl 0
  | plain hquote hslash hc _ ih =>
    rw [List.flatMap_cons, writtenChar_plain hquote hslash hc]
    exact Nat.succ_le_succ ih
  | letter hletter _ ih =>
    have hc := length_writtenChar_letter hletter
    rw [List.flatMap_cons, List.length_append, List.length_cons, List.length_cons]
    omega
  | @number digits body text n hdigits _ ih =>
    have hc := length_writtenChar_le (charOfNumber n)
    have hfour := hdigits.length
    rw [List.flatMap_cons, List.length_append, List.length_cons, List.length_cons,
      List.length_append]
    omega
  | @pair first second body text high low hfirst _ hsecond _ _ ih =>
    have hc := length_writtenChar_le (charOfHalves high low)
    have hfour := hfirst.length
    rw [List.flatMap_cons, List.length_append, List.length_cons, List.length_cons,
      List.length_append, List.length_cons, List.length_cons, List.length_append]
    omega

end Length

end SourceLoom.Json
