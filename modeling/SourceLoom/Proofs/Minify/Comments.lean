import Mathlib.Data.List.Infix
import SourceLoom.Minify.Comments

/-!
# The two passes over comments

Line comments are removed first and block comments then, and neither pass knows of the other. Here
is what each of them does to a text in front of another text: a text without marks is passed over,
a line comment goes up to its line feed, and a closed block comment goes as a whole.
-/

namespace SourceLoom.Minify

/-- The mark that opens a line comment. -/
def lineMark : Text := ['/', '/']

/-- The mark that opens a block comment. -/
def openingMark : Text := ['/', '*']

/-- The mark that closes a block comment. -/
def closingMark : Text := ['*', '/']

section Lines

/-- Whether the end of a text is in a line comment; what follows the text does not count. -/
def endsInComment : (inComment : Bool) → (previous : Char) → Text → Bool
  | inComment, _, [] => inComment
  | true, _, c :: rest => endsInComment (c ≠ '\n') c rest
  | false, previous, c :: rest =>
    endsInComment (c = '/' ∧ rest.head? = some '/' ∧ previous ≠ ':') c rest

/-- Two texts in a row lose their line comments one after the other, if no mark straddles the
place between them. -/
theorem dropLineComments_append {s t : Text}
    (h : s.getLast? = some '/' → t.head? ≠ some '/') (inComment : Bool) (previous : Char) :
    dropLineComments inComment previous (s ++ t) =
      dropLineComments inComment previous s ++
        dropLineComments (endsInComment inComment previous s) (s.getLastD previous) t := by
  induction s generalizing inComment previous with
  | nil => cases inComment <;> rfl
  | cons c s ih =>
    have hrest : s.getLast? = some '/' → t.head? ≠ some '/' := by
      intro hs
      apply h
      rw [List.getLast?_cons, hs]
      rfl
    rw [List.getLastD_cons, List.cons_append]
    cases inComment with
    | true =>
      rw [dropLineComments, dropLineComments, endsInComment]
      split
      · rename_i hc
        rw [ih hrest, List.cons_append, decide_eq_false (not_not_intro hc)]
      · rename_i hc
        rw [ih hrest, decide_eq_true hc]
    | false =>
      -- whether a comment begins at `c` is seen in `s`, unless `c` is the last character
      have hmark : (c = '/' ∧ (s ++ t).head? = some '/' ∧ previous ≠ ':') ↔
          (c = '/' ∧ s.head? = some '/' ∧ previous ≠ ':') := by
        cases s with
        | nil =>
          constructor
          · rintro ⟨rfl, hhead, -⟩
            exact absurd hhead (h rfl)
          · rintro ⟨-, hhead, -⟩
            cases hhead
        | cons d s => rfl
      rw [dropLineComments, dropLineComments, endsInComment]
      simp only [hmark]
      split
      · rename_i hc
        rw [ih hrest, decide_eq_true hc]
      · rename_i hc
        rw [ih hrest, List.cons_append, decide_eq_false hc]

/-- In a text without slashes nothing begins a comment. -/
theorem endsInComment_of_not_mem {text : Text} (h : '/' ∉ text) (previous : Char) :
    endsInComment false previous text = false := by
  induction text generalizing previous with
  | nil => rfl
  | cons c text ih =>
    rw [List.mem_cons, not_or] at h
    rw [endsInComment, decide_eq_false fun hc => h.1 hc.1.symm, ih h.2]

/-- A text without slashes has no line comments to lose. -/
theorem dropLineComments_of_not_mem {text : Text} (h : '/' ∉ text) (previous : Char) :
    dropLineComments false previous text = text := by
  induction text generalizing previous with
  | nil => rfl
  | cons c text ih =>
    rw [List.mem_cons, not_or] at h
    rw [dropLineComments, if_neg fun hc => h.1 hc.1.symm, ih h.2]

/-- A line comment goes as far as there is no line feed. -/
theorem dropLineComments_comment {text : Text} (h : '\n' ∉ text) (previous : Char) :
    dropLineComments true previous text = [] := by
  induction text generalizing previous with
  | nil => rfl
  | cons c text ih =>
    rw [List.mem_cons, not_or] at h
    rw [dropLineComments, if_neg (Ne.symm h.1), ih h.2]

/-- What begins with a line feed ends a line comment. -/
theorem dropLineComments_lineFeed (inComment : Bool) {rest : Text}
    (h : rest.head? = none ∨ rest.head? = some '\n') (previous other : Char) :
    dropLineComments inComment previous rest = dropLineComments false other rest := by
  cases rest with
  | nil => cases inComment <;> rfl
  | cons c rest =>
    obtain rfl : c = '\n' := by simpa using h
    cases inComment with
    | true => rfl
    | false => simp [dropLineComments]

/-- What begins with a line feed still does without its comments, and nothing stays nothing. -/
theorem head_dropLineComments_lineFeed {text : Text}
    (h : text.head? = none ∨ text.head? = some '\n') (previous : Char) :
    (dropLineComments false previous text).head? = text.head? := by
  cases text with
  | nil => rfl
  | cons c text =>
    obtain rfl : c = '\n' := by simpa using h
    simp [dropLineComments]

/-- Two slashes after a character other than a colon: where a line comment begins, unless one has
begun before on the line. -/
def HasMark (text : Text) : Prop :=
  ∃ before c after, text = before ++ c :: '/' :: '/' :: after ∧ c ≠ ':'

/-- Wherever a line comment begins in a text, its line ends in the text. -/
def IsFenced (text : Text) : Prop :=
  ∀ before c after, text = before ++ c :: '/' :: '/' :: after → c ≠ ':' → '\n' ∈ after

/-- The rest of a text in which all lines with comments end is such a text. -/
theorem IsFenced.tail {c : Char} {text : Text} (h : IsFenced (c :: text)) : IsFenced text := by
  intro before d after htext hd
  refine h (c :: before) d after ?_ hd
  rw [htext]
  rfl

/-- A text in which all lines with comments end does not end in a comment. -/
theorem endsInComment_of_isFenced {inComment : Bool} {previous : Char} {text : Text}
    (hline : inComment = true → '\n' ∈ text) (h : IsFenced (previous :: text)) :
    endsInComment inComment previous text = false := by
  induction text generalizing inComment previous with
  | nil =>
    cases inComment with
    | true => exact absurd (hline rfl) List.not_mem_nil
    | false => rfl
  | cons c text ih =>
    cases inComment with
    | true =>
      rw [endsInComment]
      refine ih (fun hc => ?_) h.tail
      rw [decide_eq_true_eq] at hc
      exact (List.mem_cons.mp (hline rfl)).resolve_left (Ne.symm hc)
    | false =>
      rw [endsInComment]
      refine ih (fun hc => ?_) h.tail
      obtain ⟨rfl, hhead, hprevious⟩ := of_decide_eq_true hc
      obtain ⟨rest, rfl⟩ := List.head?_eq_some_iff.mp hhead
      exact List.mem_cons_of_mem _ (h [] previous rest rfl hprevious)

/-- A comment goes on as long as there is no line feed. -/
theorem endsInComment_of_not_mem_lineFeed {text : Text} (h : '\n' ∉ text) (previous : Char) :
    endsInComment true previous text = true := by
  induction text generalizing previous with
  | nil => rfl
  | cons c text ih =>
    rw [List.mem_cons, not_or] at h
    rw [endsInComment, decide_eq_true (Ne.symm h.1), ih h.2]

/-- A text that does not end in a comment is one in which all lines with comments end. -/
theorem isFenced_of_endsInComment {inComment : Bool} {previous : Char} {text : Text}
    (h : endsInComment inComment previous text = false) : IsFenced (previous :: text) := by
  intro before c after htext hc
  by_contra hfeed
  induction before generalizing inComment previous text with
  | nil =>
    obtain ⟨rfl, rfl⟩ := List.cons.inj htext
    have hrest : '\n' ∉ '/' :: after := by
      rw [List.mem_cons, not_or]
      exact ⟨by decide, hfeed⟩
    have hmode : endsInComment inComment previous ('/' :: '/' :: after) =
        endsInComment true '/' ('/' :: after) := by
      cases inComment <;> simp [endsInComment, hc]
    rw [hmode, endsInComment_of_not_mem_lineFeed hrest] at h
    cases h
  | cons first before ih =>
    cases text with
    | nil => exact absurd (congrArg List.length htext) (by simp)
    | cons d text =>
      have hrest := (List.cons.inj htext).2
      cases inComment with
      | true =>
        rw [endsInComment] at h
        exact ih h hrest
      | false =>
        rw [endsInComment] at h
        exact ih h hrest

/-- All lines with comments end in a text exactly if it does not end in a comment. -/
theorem isFenced_iff {previous : Char} {text : Text} :
    IsFenced (previous :: text) ↔ endsInComment false previous text = false :=
  ⟨endsInComment_of_isFenced fun h => (Bool.false_ne_true h).elim, isFenced_of_endsInComment⟩

/-- Whether all lines with comments end in a text can be computed. -/
instance (previous : Char) (text : Text) : Decidable (IsFenced (previous :: text)) :=
  decidable_of_iff _ isFenced_iff.symm

/-- What a comment leaves begins with a line feed, if with anything. -/
theorem head_dropLineComments_comment (previous : Char) (text : Text) :
    (dropLineComments true previous text).head? = none ∨
      (dropLineComments true previous text).head? = some '\n' := by
  induction text generalizing previous with
  | nil => exact Or.inl rfl
  | cons c text ih =>
    rw [dropLineComments]
    split
    · rename_i hc
      rw [hc]
      exact Or.inr rfl
    · exact ih c

/-- A slash that comes first without the comments came first with them. -/
theorem head_of_dropLineComments {previous : Char} {text : Text}
    (h : (dropLineComments false previous text).head? = some '/') : text.head? = some '/' := by
  cases text with
  | nil => exact h
  | cons c text =>
    rw [dropLineComments] at h
    split at h
    · rcases head_dropLineComments_comment c text with hnone | hfeed
      · rw [hnone] at h
        cases h
      · rw [hfeed] at h
        exact absurd h (by decide)
    · exact h

/-- Losing line comments makes no closing mark. -/
theorem closingMark_of_dropLineComments {inComment : Bool} {previous : Char} {text : Text}
    (h : closingMark <:+: dropLineComments inComment previous text) : closingMark <:+: text := by
  induction text generalizing inComment previous with
  | nil =>
    cases inComment <;> exact h
  | cons c text ih =>
    cases inComment with
    | true =>
      rw [dropLineComments] at h
      split at h
      · rename_i hc
        rcases List.infix_cons_iff.mp h with hstart | hlater
        · rw [hc] at hstart
          exact absurd hstart (by simp [closingMark])
        · exact (ih hlater).trans (List.suffix_cons c text).isInfix
      · exact (ih h).trans (List.suffix_cons c text).isInfix
    | false =>
      rw [dropLineComments] at h
      split at h
      · exact (ih h).trans (List.suffix_cons c text).isInfix
      · rcases List.infix_cons_iff.mp h with hstart | hlater
        · obtain ⟨rfl, hslash⟩ := List.cons_prefix_cons.mp hstart
          have hhead : (dropLineComments false '*' text).head? = some '/' := by
            obtain ⟨rest, hrest⟩ := hslash
            rw [← hrest]
            rfl
          obtain ⟨rest, rfl⟩ := List.head?_eq_some_iff.mp (head_of_dropLineComments hhead)
          exact ⟨[], rest, rfl⟩
        · exact (ih hlater).trans (List.suffix_cons c text).isInfix

/-- What is left of a line that has no line feed begins it. -/
theorem dropLineComments_prefix {text : Text} (h : '\n' ∉ text) (previous : Char) :
    dropLineComments false previous text <+: text := by
  induction text generalizing previous with
  | nil => exact List.prefix_rfl
  | cons c text ih =>
    rw [List.mem_cons, not_or] at h
    rw [dropLineComments]
    split
    · rw [dropLineComments_comment h.2]
      exact List.nil_prefix
    · exact (List.prefix_cons_inj c).mpr (ih h.2 c)

/-- A mark is still there with more text after it. -/
theorem HasMark.append {text : Text} (h : HasMark text) (more : Text) :
    HasMark (text ++ more) := by
  obtain ⟨before, c, after, rfl, hc⟩ := h
  refine ⟨before, c, after ++ more, ?_, hc⟩
  rw [List.append_assoc]
  rfl

/-- No line comment begins in what is left of a text. -/
theorem not_hasMark_dropLineComments {text : Text} (h : '\n' ∉ text) (previous : Char) :
    ¬HasMark (previous :: dropLineComments false previous text) := by
  rintro ⟨before, d, after, htext, hd⟩
  induction text generalizing previous before with
  | nil =>
    have hlength := congrArg List.length htext
    simp [dropLineComments] at hlength
    omega
  | cons c text ih =>
    rw [List.mem_cons, not_or] at h
    rw [dropLineComments] at htext
    split at htext
    · rw [dropLineComments_comment h.2] at htext
      have hlength := congrArg List.length htext
      simp at hlength
      omega
    · rename_i hkept
      cases before with
      | nil =>
        obtain ⟨rfl, hrest⟩ := List.cons.inj htext
        obtain ⟨rfl, hrest⟩ := List.cons.inj hrest
        refine hkept ⟨rfl, ?_, hd⟩
        have hhead : (dropLineComments false '/' text).head? = some '/' := by
          rw [hrest]
          rfl
        exact head_of_dropLineComments hhead
      | cons first before => exact ih h.2 c before (List.cons.inj htext).2

/-- In a line comment right after a colon, no block comment is opened before another line comment
begins. -/
def IsGuarded (text : Text) : Prop :=
  ∀ before after, ':' :: lineMark ++ text = before ++ '/' :: '*' :: after →
    HasMark (before ++ ['/'])

/-- Without an asterisk nothing is opened. -/
theorem isGuarded_of_not_mem {text : Text} (h : '*' ∉ text) : IsGuarded text := by
  intro before after htext
  have hmem : '*' ∈ ':' :: lineMark ++ text := by
    rw [htext]
    simp
  exact absurd hmem (by simp [lineMark, h])

/-- What is left of such a comment opens no block comment. -/
theorem openingMark_of_isGuarded {text : Text} (hline : '\n' ∉ text) (h : IsGuarded text) :
    ¬openingMark <:+: dropLineComments false ':' (lineMark ++ text) := by
  have hwhole : '\n' ∉ lineMark ++ text := by
    rw [List.mem_append, not_or]
    exact ⟨by decide, hline⟩
  rintro ⟨before, after, hkept⟩
  obtain ⟨cut, hcut⟩ := dropLineComments_prefix hwhole ':'
  have hmark : HasMark ((':' :: before) ++ ['/']) := by
    apply h (':' :: before) (after ++ cut)
    rw [List.cons_append, ← hcut, ← hkept]
    simp [openingMark]
  apply not_hasMark_dropLineComments hwhole ':'
  have hlonger := hmark.append ('*' :: after)
  rw [← hkept]
  simpa [openingMark] using hlonger

end Lines

section Blocks

/-- The characters that belong to what is removed are passed over. -/
theorem dropBetween_skip (opening closing passed rest : Text) :
    dropBetween opening closing passed.length (passed ++ rest) =
      dropBetween opening closing 0 rest := by
  induction passed with
  | nil => rfl
  | cons c passed ih => exact ih

/-- A text without opening marks is kept, if no mark straddles its end. -/
theorem dropBetween_append {s t : Text} (hs : ¬openingMark <:+: s)
    (h : s.getLast? = some '/' → t.head? ≠ some '*') :
    dropBetween openingMark closingMark 0 (s ++ t) =
      s ++ dropBetween openingMark closingMark 0 t := by
  induction s with
  | nil => rfl
  | cons c s ih =>
    have hmark : Text.dropLeading? openingMark (c :: (s ++ t)) = none := by
      rw [Option.eq_none_iff_forall_ne_some]
      intro rest hrest
      obtain ⟨rfl, hnext⟩ := List.cons.inj (Text.dropLeading?_eq_some_iff.mp hrest)
      cases s with
      | nil =>
        apply h rfl
        rw [List.nil_append] at hnext
        rw [hnext]
        rfl
      | cons d s =>
        obtain ⟨rfl, -⟩ := List.cons.inj hnext
        exact hs ⟨[], s, rfl⟩
    have hlater : ¬openingMark <:+: s := fun hpart =>
      hs (hpart.trans (List.suffix_cons c s).isInfix)
    have hend : s.getLast? = some '/' → t.head? ≠ some '*' := by
      intro hlast
      apply h
      rw [List.getLast?_cons, hlast]
      rfl
    rw [List.cons_append, dropBetween, hmark, Option.bind_none, ih hlater hend]
    rfl

/-- The first closing mark after a text without one. -/
theorem endOf?_closingMark {text : Text} (h : ¬closingMark <:+: text) (rest : Text) :
    endOf? closingMark (text ++ (closingMark ++ rest)) = some (text.length + 2) := by
  induction text with
  | nil => rfl
  | cons c text ih =>
    have hstart : closingMark.isPrefixOf (c :: (text ++ (closingMark ++ rest))) = false := by
      rw [Bool.eq_false_iff, ne_eq, List.isPrefixOf_iff_prefix]
      intro hprefix
      obtain ⟨rfl, hslash⟩ := List.cons_prefix_cons.mp hprefix
      cases text with
      | nil => exact absurd (List.cons_prefix_cons.mp hslash).1 (by decide)
      | cons d text =>
        obtain ⟨rfl, -⟩ := List.cons_prefix_cons.mp hslash
        exact h ⟨[], text, rfl⟩
    have hlater : ¬closingMark <:+: text := fun hpart =>
      h (hpart.trans (List.suffix_cons c text).isInfix)
    rw [List.cons_append, endOf?, hstart, ih hlater]
    rfl

/-- From an opening mark on, everything up to the closing mark is passed over. -/
theorem dropBetween_opening {rest : Text} {size : Nat} (h : endOf? closingMark rest = some size) :
    dropBetween openingMark closingMark 0 (openingMark ++ rest) =
      dropBetween openingMark closingMark (size + 1) ('*' :: rest) := by
  have hleading : Text.dropLeading? openingMark ('/' :: '*' :: rest) = some rest :=
    Text.dropLeading?_eq_some_iff.mpr rfl
  have hsize : openingMark.length + size - 1 = size + 1 := by
    simp only [openingMark, List.length_cons, List.length_nil]
    omega
  change dropBetween openingMark closingMark 0 ('/' :: '*' :: rest) = _
  conv_lhs => rw [dropBetween, hleading, Option.bind_some, h]
  dsimp only
  rw [hsize]

/-- A block comment goes as a whole. -/
theorem dropBetween_block {text : Text} (h : ¬closingMark <:+: text) (rest : Text) :
    dropBetween openingMark closingMark 0 (openingMark ++ (text ++ (closingMark ++ rest))) =
      dropBetween openingMark closingMark 0 rest := by
  have hpassed : '*' :: (text ++ (closingMark ++ rest)) =
      ('*' :: (text ++ closingMark)) ++ rest := by
    rw [← List.append_assoc]
    rfl
  have hlength : text.length + 2 + 1 = ('*' :: (text ++ closingMark)).length := by
    rw [List.length_cons, List.length_append]
    rfl
  rw [dropBetween_opening (endOf?_closingMark h rest), hpassed, hlength, dropBetween_skip]

end Blocks

end SourceLoom.Minify
