/-!
# Text

Text is the list of its code points: every length, cut and order in this library counts code
points, and the order of texts is that of their code points, first difference first.
-/

namespace SourceLoom

/-- A text, as the list of its code points. -/
abbrev Text := List Char

namespace Text

/-- Comparing texts tells whether they are equal. -/
instance : LawfulBEq Text := inferInstanceAs (LawfulBEq (List Char))

/-- The pieces of a text between the occurrences of a separating character; there is always one
more piece than there are separators. -/
def splitOn (separator : Char) : Text → List Text
  | [] => [[]]
  | c :: rest =>
    if c = separator then [] :: splitOn separator rest
    else (splitOn separator rest).modifyHead (c :: ·)

/-- The texts in order with a separator between neighbours. -/
def join (separator : Text) : List Text → Text
  | [] => []
  | [piece] => piece
  | piece :: next :: pieces => piece ++ separator ++ join separator (next :: pieces)

/-- What follows a leading piece, if the text begins with that piece. -/
def dropLeading? : Text → Text → Option Text
  | [], text => some text
  | _ :: _, [] => none
  | l :: leading, c :: text => if l = c then dropLeading? leading text else none

/-- Whether a piece occurs anywhere in a text. -/
def includes (piece : Text) : Text → Bool
  | [] => piece.isEmpty
  | c :: text => piece.isPrefixOf (c :: text) || includes piece text

/-- Every occurrence of one character becomes another. -/
def replaceChar (old new : Char) (text : Text) : Text :=
  text.map fun c => if c = old then new else c

/-- Whether one text comes strictly before another: by the first differing code point, and a
proper beginning comes before its continuations. -/
def before : Text → Text → Bool
  | [], [] => false
  | [], _ :: _ => true
  | _ :: _, [] => false
  | a :: s, b :: t => if a = b then before s t else a.toNat < b.toNat

/-- Whether one text comes before another or equals it. -/
def beforeOrEqual (s t : Text) : Bool := !before t s

/-- Texts in increasing order. -/
def sort (texts : List Text) : List Text := texts.mergeSort beforeOrEqual

/-- Splitting yields at least one piece. -/
theorem splitOn_ne_nil (separator : Char) (text : Text) : splitOn separator text ≠ [] := by
  induction text with
  | nil => simp [splitOn]
  | cons c rest ih =>
    unfold splitOn
    split
    · simp
    · cases h : splitOn separator rest with
      | nil => exact absurd h ih
      | cons piece pieces => simp

/-- Splitting loses nothing: the pieces joined by the separator are the text again. -/
theorem join_splitOn (separator : Char) (text : Text) :
    join [separator] (splitOn separator text) = text := by
  induction text with
  | nil => rfl
  | cons c rest ih =>
    unfold splitOn
    cases h : splitOn separator rest with
    | nil => exact absurd h (splitOn_ne_nil separator rest)
    | cons piece pieces =>
      rw [h] at ih
      split
      · simp_all [join]
      · cases pieces <;> simp_all [join]

/-- What follows a leading piece is what follows it. -/
theorem dropLeading?_eq_some_iff {leading text rest : Text} :
    dropLeading? leading text = some rest ↔ text = leading ++ rest := by
  induction leading generalizing text with
  | nil =>
    rw [dropLeading?, Option.some_inj]
    rfl
  | cons l leading ih =>
    cases text with
    | nil => simp [dropLeading?]
    | cons c text =>
      rw [dropLeading?, List.cons_append, List.cons.injEq]
      split
      · rename_i hc
        rw [ih]
        exact ⟨fun h => ⟨hc.symm, h⟩, fun h => h.2⟩
      · rename_i hc
        exact ⟨fun h => (Option.some_ne_none _ h.symm).elim, fun h => absurd h.1.symm hc⟩

/-- Nothing follows a leading piece that the text does not begin with. -/
theorem dropLeading?_eq_none_iff {leading text : Text} :
    dropLeading? leading text = none ↔ ¬ leading <+: text := by
  rw [Option.eq_none_iff_forall_ne_some]
  exact ⟨fun h ⟨rest, hrest⟩ => h rest (dropLeading?_eq_some_iff.mpr hrest.symm),
    fun h rest hrest => h ⟨rest, (dropLeading?_eq_some_iff.mp hrest).symm⟩⟩

end Text

end SourceLoom
