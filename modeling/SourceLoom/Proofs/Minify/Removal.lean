import SourceLoom.Minify
import SourceLoom.Proofs.Minify.Comments

/-!
# What the passes remove

Both passes over comments only remove characters, and whatever they remove has a slash in it. A
pass that takes no slash away therefore leaves a text as it is, and it does so exactly if its marks
are not in the text: two slashes after a character other than a colon, or an opening mark with a
closing one after it.
-/

namespace SourceLoom.Minify

/-- An opening mark with a closing mark somewhere after it. -/
def HasBlock (text : Text) : Prop :=
  ∃ before rest, text = before ++ (openingMark ++ rest) ∧ closingMark <:+: rest

section Lines

/-- The pass over line comments only removes characters. -/
theorem dropLineComments_sublist (inComment : Bool) (previous : Char) (text : Text) :
    (dropLineComments inComment previous text).Sublist text := by
  induction text generalizing inComment previous with
  | nil => cases inComment <;> exact List.Sublist.refl _
  | cons c text ih =>
    cases inComment with
    | true =>
      rw [dropLineComments]
      split
      · exact (ih false c).cons_cons c
      · exact (ih true c).cons c
    | false =>
      rw [dropLineComments]
      split
      · exact (ih true c).cons c
      · exact (ih false c).cons_cons c

/-- A mark is still there with one more character before the text. -/
theorem HasMark.cons {text : Text} (h : HasMark text) (c : Char) : HasMark (c :: text) := by
  obtain ⟨before, d, after, rfl, hd⟩ := h
  exact ⟨c :: before, d, after, rfl, hd⟩

/-- A mark that is not at the beginning of a text is in what follows the first character. -/
theorem HasMark.tail {previous c : Char} {text : Text} (h : HasMark (previous :: c :: text))
    (hstart : ¬(c = '/' ∧ text.head? = some '/' ∧ previous ≠ ':')) : HasMark (c :: text) := by
  obtain ⟨before, d, after, htext, hd⟩ := h
  cases before with
  | nil =>
    obtain ⟨rfl, hrest⟩ := List.cons.inj htext
    obtain ⟨rfl, rfl⟩ := List.cons.inj hrest
    exact absurd ⟨rfl, rfl, hd⟩ hstart
  | cons first before => exact ⟨before, d, after, (List.cons.inj htext).2, hd⟩

/-- A text without marks loses nothing to the pass over line comments. -/
theorem dropLineComments_of_not_hasMark {previous : Char} {text : Text}
    (h : ¬HasMark (previous :: text)) : dropLineComments false previous text = text := by
  induction text generalizing previous with
  | nil => rfl
  | cons c text ih =>
    have hstart : ¬(c = '/' ∧ text.head? = some '/' ∧ previous ≠ ':') := by
      rintro ⟨rfl, hhead, hprevious⟩
      obtain ⟨rest, rfl⟩ := List.head?_eq_some_iff.mp hhead
      exact h ⟨[], previous, rest, rfl, hprevious⟩
    have hlater : ¬HasMark (c :: text) := fun hmark => h (hmark.cons previous)
    rw [dropLineComments, if_neg hstart, ih hlater]

/-- A text with a mark loses a slash to the pass over line comments. -/
theorem count_dropLineComments_lt {previous : Char} {text : Text}
    (h : HasMark (previous :: text)) :
    (dropLineComments false previous text).count '/' < text.count '/' := by
  induction text generalizing previous with
  | nil =>
    obtain ⟨before, c, after, htext, -⟩ := h
    have hlength := congrArg List.length htext
    simp at hlength
    omega
  | cons c text ih =>
    rw [dropLineComments]
    split
    · rename_i hstart
      rw [hstart.1, List.count_cons_self]
      exact Nat.lt_succ_of_le ((dropLineComments_sublist true '/' text).count_le '/')
    · rename_i hstart
      rw [List.count_cons, List.count_cons]
      exact Nat.add_lt_add_right (ih (h.tail hstart)) _

/-- A text has a mark after a character exactly if the pass over line comments changes it. -/
theorem hasMark_iff {previous : Char} {text : Text} :
    HasMark (previous :: text) ↔ dropLineComments false previous text ≠ text := by
  refine ⟨fun h hsame => ?_, fun h => not_imp_comm.mp dropLineComments_of_not_hasMark h⟩
  have hcount := count_dropLineComments_lt h
  rw [hsame] at hcount
  exact Nat.lt_irrefl _ hcount

/-- Whether a text has a mark can be computed. -/
instance : DecidablePred HasMark
  | [] => isFalse fun ⟨before, _, _, htext, _⟩ => by cases before <;> cases htext
  | _ :: _ => decidable_of_iff _ hasMark_iff.symm

end Lines

section Blocks

/-- The pass over comments between two marks only removes characters. -/
theorem dropBetween_sublist (opening closing : Text) (skip : Nat) (text : Text) :
    (dropBetween opening closing skip text).Sublist text := by
  induction text generalizing skip with
  | nil => cases skip <;> exact List.Sublist.refl _
  | cons c text ih =>
    cases skip with
    | zero =>
      rw [dropBetween]
      split
      · exact (ih _).cons c
      · exact (ih 0).cons_cons c
    | succ skip => exact (ih skip).cons c

/-- A mark has an end in a text exactly if it stands in it. -/
theorem endOf?_eq_none_iff {mark text : Text} : endOf? mark text = none ↔ ¬mark <:+: text := by
  induction text with
  | nil => simp [endOf?, List.infix_nil]
  | cons c text ih =>
    rw [endOf?, List.infix_cons_iff, not_or, ← ih, ← List.isPrefixOf_iff_prefix]
    split <;> simp [*]

/-- A text opens no block comment exactly if it does not begin with an opening mark that has a
closing mark after it. -/
theorem opens_eq_none_iff {text : Text} :
    (Text.dropLeading? openingMark text).bind (endOf? closingMark) = none ↔
      ∀ rest, text = openingMark ++ rest → ¬closingMark <:+: rest := by
  rw [Option.bind_eq_none_iff]
  simp only [Text.dropLeading?_eq_some_iff, endOf?_eq_none_iff]

/-- A block is still there with one more character before the text. -/
theorem HasBlock.cons {text : Text} (h : HasBlock text) (c : Char) : HasBlock (c :: text) := by
  obtain ⟨before, rest, rfl, hrest⟩ := h
  exact ⟨c :: before, rest, rfl, hrest⟩

/-- A block that is not at the beginning of a text is in what follows the first character. -/
theorem HasBlock.tail {c : Char} {text : Text} (h : HasBlock (c :: text))
    (hstart : ∀ rest, c :: text = openingMark ++ rest → ¬closingMark <:+: rest) :
    HasBlock text := by
  obtain ⟨before, rest, htext, hrest⟩ := h
  cases before with
  | nil => exact absurd hrest (hstart rest htext)
  | cons first before => exact ⟨before, rest, (List.cons.inj htext).2, hrest⟩

/-- A text without blocks loses nothing to the pass over block comments. -/
theorem dropBetween_of_not_hasBlock {text : Text} (h : ¬HasBlock text) :
    dropBetween openingMark closingMark 0 text = text := by
  induction text with
  | nil => rfl
  | cons c text ih =>
    have hstart := opens_eq_none_iff.mpr fun rest htext hrest => h ⟨[], rest, htext, hrest⟩
    have hlater : ¬HasBlock text := fun hblock => h (hblock.cons c)
    rw [dropBetween, hstart]
    exact congrArg (c :: ·) (ih hlater)

/-- A text with a block loses a slash to the pass over block comments. -/
theorem count_dropBetween_lt {text : Text} (h : HasBlock text) :
    (dropBetween openingMark closingMark 0 text).count '/' < text.count '/' := by
  induction text with
  | nil =>
    obtain ⟨before, rest, htext, -⟩ := h
    simp [openingMark] at htext
  | cons c text ih =>
    rw [dropBetween]
    split
    · rename_i size hsize
      obtain ⟨rest, hrest, -⟩ := Option.bind_eq_some_iff.mp hsize
      obtain ⟨rfl, -⟩ := List.cons.inj (Text.dropLeading?_eq_some_iff.mp hrest)
      rw [List.count_cons_self]
      exact Nat.lt_succ_of_le ((dropBetween_sublist openingMark closingMark _ text).count_le '/')
    · rename_i hstart
      rw [List.count_cons, List.count_cons]
      exact Nat.add_lt_add_right (ih (h.tail (opens_eq_none_iff.mp hstart))) _

/-- A text has a block exactly if the pass over block comments changes it. -/
theorem hasBlock_iff {text : Text} :
    HasBlock text ↔ dropBetween openingMark closingMark 0 text ≠ text := by
  refine ⟨fun h hsame => ?_, fun h => not_imp_comm.mp dropBetween_of_not_hasBlock h⟩
  have hcount := count_dropBetween_lt h
  rw [hsame] at hcount
  exact Nat.lt_irrefl _ hcount

/-- Whether a text has a block can be computed. -/
instance : DecidablePred HasBlock := fun _ => decidable_of_iff _ hasBlock_iff.symm

end Blocks

section Scripts

variable {text : Text}

/-- A script without marks and blocks is kept as it is. -/
theorem withoutScriptComments_eq_self (hmark : ¬HasMark ('\n' :: text)) (hblock : ¬HasBlock text) :
    withoutScriptComments text = text := by
  have hlines : withoutLineComments text = text := dropLineComments_of_not_hasMark hmark
  rw [withoutScriptComments, hlines]
  exact dropBetween_of_not_hasBlock hblock

/-- A script that keeps its slashes has neither marks nor blocks. -/
theorem not_hasMark_and_not_hasBlock
    (h : text.count '/' ≤ (withoutScriptComments text).count '/') :
    ¬HasMark ('\n' :: text) ∧ ¬HasBlock text := by
  have hblocks : (withoutScriptComments text).count '/' ≤ (withoutLineComments text).count '/' :=
    (dropBetween_sublist openingMark closingMark 0 _).count_le '/'
  have hmark : ¬HasMark ('\n' :: text) := fun hmark =>
    absurd (h.trans hblocks) (Nat.not_le_of_lt (count_dropLineComments_lt hmark))
  have hlines : withoutLineComments text = text := dropLineComments_of_not_hasMark hmark
  refine ⟨hmark, fun hblock => absurd h (Nat.not_le_of_lt ?_)⟩
  rw [withoutScriptComments, hlines]
  exact count_dropBetween_lt hblock

end Scripts

end SourceLoom.Minify
