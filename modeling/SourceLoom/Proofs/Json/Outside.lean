import SourceLoom.Proofs.Json.Grammar
import SourceLoom.Proofs.Text.InOrder

/-!
# What stands outside of strings

A quote opens a string and the next quote closes it, but for those after a backslash. Outside of
the strings of a value without fractions the compact layout writes no blank, so its text is on one
line and has no blank at its ends: blanks within strings are either escaped, as line feeds are, or
stand between the quotes.
-/

namespace SourceLoom.Json

/-- A text without what its strings hold between their quotes. -/
def outsideStrings : (inString : Bool) → Text → Text
  | _, [] => []
  | false, c :: rest => c :: outsideStrings (c = '"') rest
  | true, '\\' :: _ :: rest => outsideStrings true rest
  | true, c :: rest => if c = '"' then c :: outsideStrings false rest else outsideStrings true rest

section Passing

variable {text body name : Text} {c : Char}

/-- Without a quote, no string begins. -/
theorem outsideStrings_append (h : '"' ∉ text) (rest : Text) :
    outsideStrings false (text ++ rest) = text ++ outsideStrings false rest := by
  induction text with
  | nil => rfl
  | cons c text ih =>
    rw [List.mem_cons, not_or] at h
    rw [List.cons_append, outsideStrings, decide_eq_false (Ne.symm h.1), ih h.2, List.cons_append]

/-- What stands for itself in a string is passed over. -/
theorem outsideStrings_plain (hquote : c ≠ '"') (hslash : c ≠ '\\') (rest : Text) :
    outsideStrings true (c :: rest) = outsideStrings true rest := by
  rw [outsideStrings, if_neg hquote]
  exact fun other more hc => absurd hc hslash

/-- The digits of an escape are passed over. -/
theorem outsideStrings_digits (h : ∀ d ∈ text, (hexDigit? d).isSome) (rest : Text) :
    outsideStrings true (text ++ rest) = outsideStrings true rest := by
  induction text with
  | nil => rfl
  | cons d text ih =>
    obtain ⟨hd, htext⟩ := List.forall_mem_cons.mp h
    have hne (c : Char) (hc : (hexDigit? c).isSome = false) : d ≠ c := by
      rintro rfl
      rw [hd] at hc
      cases hc
    rw [List.cons_append, outsideStrings_plain (hne _ (by decide)) (hne _ (by decide)), ih htext]

/-- What spells a text is passed over. -/
theorem Spells.outside (h : Spells body name) (rest : Text) :
    outsideStrings true (body ++ rest) = outsideStrings true rest := by
  induction h with
  | nil => rfl
  | plain hquote hslash _ _ ih =>
    rw [List.cons_append, outsideStrings_plain hquote hslash, ih]
  | letter _ _ ih => exact ih
  | number hdigits _ ih =>
    rw [List.cons_append, List.cons_append, List.append_assoc, outsideStrings,
      outsideStrings_digits hdigits.isDigit, ih]
  | pair hfirst _ hsecond _ _ ih =>
    rw [List.cons_append, List.cons_append, List.append_assoc, List.cons_append, List.cons_append,
      List.append_assoc, outsideStrings, outsideStrings_digits hfirst.isDigit, outsideStrings,
      outsideStrings_digits hsecond.isDigit, ih]

/-- Of a string, its quotes are left. -/
theorem Spells.outside_quoted (h : Spells body name) (rest : Text) :
    outsideStrings false ('"' :: (body ++ '"' :: rest)) =
      '"' :: '"' :: outsideStrings false rest := by
  change '"' :: outsideStrings true (body ++ '"' :: rest) = _
  rw [h.outside]
  rfl

end Passing

section Written

open Text

/-- Outside of its strings, a text adds no blank to what comes after it. -/
def IsDense (text : Text) : Prop :=
  ∃ kept, (∀ c ∈ kept, isBlank c = false) ∧
    ∀ rest, outsideStrings false (text ++ rest) = kept ++ outsideStrings false rest

/-- A text on one line without blanks at its ends, unless it is empty. -/
structure IsTrim (text : Text) : Prop where
  /-- No line feed is in it. -/
  no_feed : '\n' ∉ text
  /-- It does not begin with a blank. -/
  starts : ∀ c ∈ text.head?, isBlank c = false
  /-- It does not end with a blank. -/
  ends : ∀ c ∈ text.getLast?, isBlank c = false

variable {text more : Text}

/-- Two dense texts are dense together. -/
theorem IsDense.append (h : IsDense text) (hmore : IsDense more) : IsDense (text ++ more) := by
  obtain ⟨kept, hkept, htext⟩ := h
  obtain ⟨others, hothers, hrest⟩ := hmore
  refine ⟨kept ++ others, List.forall_mem_append.mpr ⟨hkept, hothers⟩, fun rest => ?_⟩
  rw [List.append_assoc, htext, hrest, List.append_assoc]

/-- Two trim texts are trim together. -/
theorem IsTrim.append (h : IsTrim text) (hmore : IsTrim more) : IsTrim (text ++ more) := by
  constructor
  · exact fun hfeed => (List.mem_append.mp hfeed).elim h.no_feed hmore.no_feed
  · intro c hc
    rw [List.head?_append, Option.mem_def, Option.or_eq_some_iff] at hc
    exact hc.elim (h.starts c) fun hc => hmore.starts c hc.2
  · intro c hc
    rw [List.getLast?_append, Option.mem_def, Option.or_eq_some_iff] at hc
    exact hc.elim (hmore.ends c) fun hc => h.ends c hc.2

/-- A text without blanks and quotes is dense. -/
theorem isDense_of_forall (hquote : '"' ∉ text) (h : ∀ c ∈ text, isBlank c = false) :
    IsDense text :=
  ⟨text, h, outsideStrings_append hquote⟩

/-- A text without blanks is trim. -/
theorem isTrim_of_forall (h : ∀ c ∈ text, isBlank c = false) : IsTrim text := by
  refine ⟨fun hfeed => ?_, fun c hc => h c (List.mem_of_mem_head? hc),
    fun c hc => h c (List.mem_of_mem_getLast? hc)⟩
  have hblank := h '\n' hfeed
  cases hblank

/-- No sign of a number is a blank or a quote. -/
theorem isBlank_of_isNumeral {c : Char} (h : isNumeral c = true) :
    isBlank c = false ∧ c ≠ '"' := by
  have hsigns : ∀ c ∈ ['-', '+', '.', 'e', 'E'], isBlank c = false ∧ c ≠ '"' := by decide
  have hdigits : ∀ n ∈ List.range' '0'.toNat 10,
      isBlank (Char.ofNat n) = false ∧ Char.ofNat n ≠ '"' := by decide
  rw [isNumeral, Bool.or_eq_true, isNumberDigit_iff, decide_eq_true_eq] at h
  rcases h with ⟨hlow, hhigh⟩ | h
  · have hnine : '9'.toNat = '0'.toNat + 9 := rfl
    have hdigit := hdigits c.toNat (List.mem_range'_1.mpr ⟨hlow, by omega⟩)
    rwa [Char.ofNat_toNat] at hdigit
  · exact hsigns c h

/-- A whole number is written with signs of numbers. -/
theorem isNumeral_of_mem_ofInt {n : Int} {c : Char} (h : c ∈ Text.ofInt n) : isNumeral c = true := by
  cases n with
  | ofNat n => exact isNumeral_of_digit (Text.isDigit_of_mem_ofNat h)
  | negSucc n =>
    rcases List.mem_cons.mp h with rfl | h
    · decide
    · exact isNumeral_of_digit (Text.isDigit_of_mem_ofNat h)

/-- A string is dense. -/
theorem isDense_writtenString (asciiOnly : Bool) (text : Text) :
    IsDense (writtenString asciiOnly text) := by
  refine ⟨['"', '"'], by decide, fun rest => ?_⟩
  rw [writtenString, List.append_assoc]
  exact (spells_written asciiOnly text).outside_quoted rest

/-- No line feed stands in a string. -/
theorem Spells.no_feed {body name : Text} (h : Spells body name) : '\n' ∉ body := by
  have hdigits {digits : Text} {n : Nat} (h : IsNumber digits n) : '\n' ∉ digits := by
    intro hfeed
    have hdigit := h.isDigit '\n' hfeed
    cases hdigit
  induction h with
  | nil => exact List.not_mem_nil
  | plain _ _ hc _ ih =>
    rw [List.mem_cons, not_or]
    refine ⟨?_, ih⟩
    rintro rfl
    exact absurd hc (by decide)
  | letter hletter _ ih =>
    rw [List.mem_cons, List.mem_cons, not_or, not_or]
    refine ⟨by decide, ?_, ih⟩
    rintro rfl
    cases hletter
  | number h _ ih => simp [hdigits h, ih]
  | pair hfirst _ hsecond _ _ ih => simp [hdigits hfirst, hdigits hsecond, ih]

/-- A string is trim. -/
theorem isTrim_writtenString (asciiOnly : Bool) (text : Text) :
    IsTrim (writtenString asciiOnly text) := by
  have hbody := (spells_written asciiOnly text).no_feed
  have hquote : isBlank '"' = false := by decide
  constructor
  · simp [writtenString, hbody]
  · intro c hc
    cases hc
    exact hquote
  · intro c hc
    rw [writtenString, List.getLast?_append] at hc
    cases hc
    exact hquote

/-- The compact layout writes densely outside of strings. -/
theorem carries_isDense : Layout.compact.Carries IsDense where
  append := .append
  sign c hc := by
    have hsigns : ∀ c ∈ ['[', ']', '\x7b', '\x7d'], '"' ∉ [c] ∧ ∀ d ∈ [c], isBlank d = false := by
      decide
    exact isDense_of_forall (hsigns c hc).1 (hsigns c hc).2
  word word hword := by
    have hwords : ∀ word ∈ ["null".toList, "true".toList, "false".toList],
        '"' ∉ word ∧ ∀ c ∈ word, isBlank c = false := by decide
    exact isDense_of_forall (hwords word hword).1 (hwords word hword).2
  int n := isDense_of_forall
    (fun hquote => (isBlank_of_isNumeral (isNumeral_of_mem_ofInt hquote)).2 rfl)
    fun c hc => (isBlank_of_isNumeral (isNumeral_of_mem_ofInt hc)).1
  string := isDense_writtenString false
  itemSeparator := isDense_of_forall (by decide) (by decide)
  nameSeparator := isDense_of_forall (by decide) (by decide)
  newline _ := isDense_of_forall List.not_mem_nil nofun

/-- The compact layout writes nothing but trim texts. -/
theorem carries_isTrim : Layout.compact.Carries IsTrim where
  append := .append
  sign c hc := by
    have hsigns : ∀ c ∈ ['[', ']', '\x7b', '\x7d'], ∀ d ∈ [c], isBlank d = false := by decide
    exact isTrim_of_forall (hsigns c hc)
  word word hword := by
    have hwords : ∀ word ∈ ["null".toList, "true".toList, "false".toList],
        ∀ c ∈ word, isBlank c = false := by decide
    exact isTrim_of_forall (hwords word hword)
  int n := isTrim_of_forall fun c hc => (isBlank_of_isNumeral (isNumeral_of_mem_ofInt hc)).1
  string := isTrim_writtenString false
  itemSeparator := isTrim_of_forall (by decide)
  nameSeparator := isTrim_of_forall (by decide)
  newline _ := isTrim_of_forall nofun

variable {value : Json}

/-- Outside of strings, a value without fractions is written without blanks. -/
theorem IsWhole.outside_toText (h : value.IsWhole) :
    ∀ c ∈ outsideStrings false (value.toText .compact), isBlank c = false := by
  obtain ⟨kept, hkept, htext⟩ := carries_isDense.write h 0
  have hwhole := htext []
  rw [List.append_nil, outsideStrings, List.append_nil] at hwhole
  rw [toText, hwhole]
  exact hkept

/-- An exact value is written on one line without blanks at its ends. -/
theorem IsExact.isTight_toText {limit : Option Nat} (h : value.IsExact limit) :
    IsTight (value.toText .compact) := by
  have htrim : IsTrim (value.toText .compact) := carries_isTrim.write h.isWhole 0
  obtain ⟨c, rest, htext, -⟩ := (h.isRead Layout.isSpaced_compact).begins 0
  change value.toText .compact = c :: rest at htext
  rw [htext] at htrim ⊢
  have hne : c :: rest ≠ [] := List.cons_ne_nil c rest
  exact ⟨htrim.no_feed, ⟨c, rest, rfl, htrim.starts c rfl⟩,
    ⟨_, _, (List.dropLast_append_getLast hne).symm,
      htrim.ends _ (List.getLast?_eq_some_getLast hne)⟩⟩

end Written

end SourceLoom.Json
