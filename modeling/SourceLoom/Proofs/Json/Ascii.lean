import SourceLoom.Proofs.Json.Writing

/-!
# JSON of ASCII alone

A layout that writes every other character as an escape makes a text of ASCII alone from every
value without fractions.
-/

namespace SourceLoom

/-- A text of ASCII alone. -/
def Text.IsAscii (text : Text) : Prop := ∀ c ∈ text, c.toNat < 0x80

instance (text : Text) : Decidable text.IsAscii :=
  inferInstanceAs (Decidable (∀ c ∈ text, c.toNat < 0x80))

namespace Text.IsAscii

variable {text other : Text} {c : Char}

/-- Nothing is not beyond ASCII. -/
theorem nil : IsAscii [] := nofun

/-- One more character of ASCII. -/
theorem cons (hc : c.toNat < 0x80) (h : text.IsAscii) : IsAscii (c :: text) :=
  List.forall_mem_cons.mpr ⟨hc, h⟩

/-- Two texts of ASCII are one together. -/
theorem append (h : text.IsAscii) (hother : other.IsAscii) : IsAscii (text ++ other) :=
  List.forall_mem_append.mpr ⟨h, hother⟩

/-- The digits of a number to any base are of ASCII. -/
theorem toDigits {base : Nat} (hbase : 1 < base) (n : Nat) : IsAscii (Nat.toDigits base n) := by
  have hsmall : ∀ n < 16, (Nat.digitChar n).toNat < 0x80 := by decide
  have hdigit (n : Nat) : (Nat.digitChar n).toNat < 0x80 := by
    by_cases hn : n < 16
    · exact hsmall n hn
    · rw [Nat.digitChar_eq_star.mpr (Nat.not_lt.mp hn)]
      decide
  induction n using Nat.strongRecOn with
  | ind n ih =>
    rw [Nat.toDigits_eq_if hbase]
    split
    · exact .cons (hdigit n) .nil
    · rename_i hlarge
      exact (ih _ (Nat.div_lt_self (by omega) hbase)).append (.cons (hdigit _) .nil)

/-- A number to the base sixteen is of ASCII. -/
theorem hex (width n : Nat) : IsAscii (Text.hex width n) := by
  refine append (fun c hc => ?_) (toDigits (by decide) n)
  rw [List.eq_of_mem_replicate hc]
  decide

/-- A whole number is of ASCII. -/
theorem ofInt (n : Int) : IsAscii (Text.ofInt n) := by
  cases n with
  | ofNat n => exact toDigits (by decide) n
  | negSucc n => exact cons (by decide) (toDigits (by decide) _)

end Text.IsAscii

namespace Json

open Text

/-- Escapes by number are of ASCII. -/
theorem isAscii_numberEscaped (c : Char) : IsAscii (numberEscaped c) := by
  unfold numberEscaped
  split
  · exact .cons (by decide) (.cons (by decide) (.hex 4 _))
  · exact .append (.cons (by decide) (.cons (by decide) (.hex 4 _)))
      (.cons (by decide) (.cons (by decide) (.hex 4 _)))

/-- A character is written with ASCII. -/
theorem isAscii_writtenChar (c : Char) : IsAscii (writtenChar true c) := by
  unfold writtenChar
  split_ifs with hquote hslash hfeed hreturn htab hform hback hescape
  iterate 7 exact .cons (by decide) (.cons (by decide) .nil)
  · exact isAscii_numberEscaped c
  · refine .cons ?_ .nil
    simp only [true_and, not_or] at hescape
    omega

/-- A string is written with ASCII. -/
theorem isAscii_writtenString (text : Text) : IsAscii (writtenString true text) := by
  have hinner : IsAscii (text.flatMap (writtenChar true)) := by
    intro c hc
    obtain ⟨plain, -, hwritten⟩ := List.mem_flatMap.mp hc
    exact isAscii_writtenChar plain c hwritten
  exact .append (.cons (by decide) hinner) (.cons (by decide) .nil)

/-- A layout that writes ASCII alone. -/
structure Layout.IsAscii (layout : Layout) : Prop where
  /-- Other characters are escaped. -/
  asciiOnly : layout.asciiOnly = true
  /-- What stands between items is of ASCII. -/
  itemSeparator : layout.itemSeparator.IsAscii
  /-- What stands between a name and its value is of ASCII. -/
  nameSeparator : layout.nameSeparator.IsAscii
  /-- What stands before an item is of ASCII. -/
  newline : ∀ level, (layout.newline level).IsAscii

/-- Space is of ASCII. -/
theorem isAscii_of_isSpace {gap : Text} (h : ∀ c ∈ gap, isSpace c = true) : gap.IsAscii := by
  intro c hc
  have hspace := h c hc
  simp only [isSpace, Bool.or_eq_true, decide_eq_true_eq] at hspace
  rcases hspace with ((rfl | rfl) | rfl) | rfl <;> decide

/-- A layout that adds nothing but space writes ASCII alone if it escapes all other characters. -/
theorem Layout.IsSpaced.isAscii {layout : Layout} (h : layout.IsSpaced)
    (hascii : layout.asciiOnly = true) : layout.IsAscii := by
  obtain ⟨itemGap, hitem, hitemGap⟩ := h.itemSeparator
  obtain ⟨nameGap, hname, hnameGap⟩ := h.nameSeparator
  refine ⟨hascii, ?_, ?_, fun level => isAscii_of_isSpace (h.newline level)⟩
  · rw [hitem]
    exact .cons (by decide) (isAscii_of_isSpace hitemGap)
  · rw [hname]
    exact .cons (by decide) (isAscii_of_isSpace hnameGap)

variable {limit : Option Nat} {layout : Layout}

/-- All that such a layout writes without fractions is of ASCII. -/
theorem Layout.IsAscii.carries (h : layout.IsAscii) : layout.Carries Text.IsAscii where
  append := .append
  sign := by decide
  word := by decide
  int := .ofInt
  string text := by
    rw [h.asciiOnly]
    exact isAscii_writtenString text
  itemSeparator := h.itemSeparator
  nameSeparator := h.nameSeparator
  newline := h.newline

/-- A value without fractions is written with ASCII. -/
theorem IsExact.isAscii_write (hlayout : layout.IsAscii) {value : Json} (h : value.IsExact limit)
    (level : Nat) : IsAscii (write layout level value) :=
  hlayout.carries.write h.isWhole level

/-- The text of a value without fractions is of ASCII. -/
theorem isAscii_toText (hlayout : layout.IsAscii) {value : Json} (h : value.IsExact limit) :
    IsAscii (value.toText layout) :=
  h.isAscii_write hlayout 0

end Json

end SourceLoom
