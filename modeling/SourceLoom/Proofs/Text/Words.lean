import Mathlib.Data.List.Induction
import SourceLoom.Proofs.Text.Solid

/-!
# Words between blanks

The words of a text are its longest pieces without blanks. Blanks between two texts keep their
words apart, and a word at the end of a text is the end of its last word. So a text that is laid
out as words with blanks between them has these words and no others.
-/

namespace SourceLoom.Text

variable {text word gap : Text} {words others : List Text} {c : Char}

/-- The words of a text, in order. -/
def wordsOf (text : Text) : List Text := (text.splitOnP isBlank).filter (· ≠ [])

/-- A text is a word if it has a character, and none of its characters is blank. -/
def IsSolid (text : Text) : Prop := text ≠ [] ∧ ∀ c ∈ text, isBlank c = false

/-- Texts can be tested for being words. -/
instance : DecidablePred IsSolid := fun text =>
  @instDecidableAnd _ _ inferInstance (List.decidableBAll (isBlank · = false) text)

/-- The words of a text have its solid characters. -/
theorem flatten_wordsOf (text : Text) : (wordsOf text).flatten = solid text := by
  rw [wordsOf, List.flatten_filter_ne_nil]
  induction text with
  | nil => rfl
  | cons c text ih =>
    rw [List.splitOnP_cons_eq_if_modifyHead, solid]
    cases hc : isBlank c with
    | true =>
      rw [if_pos rfl, List.filter_cons_of_neg (by simp [hc])]
      exact ih
    | false =>
      obtain ⟨first, more, hpieces⟩ :=
        List.exists_cons_of_ne_nil (List.splitOnP_ne_nil isBlank text)
      rw [hpieces] at ih ⊢
      rw [if_neg Bool.false_ne_true, List.filter_cons_of_pos (by simp [hc])]
      exact congrArg (c :: ·) ih

/-- The characters of the words of a text are the solid ones of the text. -/
theorem exists_mem_wordsOf_iff :
    (∃ word ∈ wordsOf text, c ∈ word) ↔ c ∈ text ∧ isBlank c = false := by
  rw [← List.mem_flatten, flatten_wordsOf, solid, List.mem_filter, Bool.not_eq_true']

/-- A character that is not blank and in no word of a text is not in the text. -/
theorem not_mem_of_wordsOf (hc : isBlank c = false) (h : ∀ word ∈ wordsOf text, c ∉ word) :
    c ∉ text := by
  intro hmem
  obtain ⟨word, hword, hcword⟩ := exists_mem_wordsOf_iff.mpr ⟨hmem, hc⟩
  exact h word hword hcword

/-- A blank keeps the words before it and those after it apart. -/
theorem wordsOf_append_blank (hc : isBlank c = true) (text rest : Text) :
    wordsOf (text ++ c :: rest) = wordsOf text ++ wordsOf rest := by
  rw [wordsOf, List.splitOnP_append_cons _ _ hc, List.filter_append]
  rfl

/-- Blanks before a text add no words. -/
theorem wordsOf_blank_append (hgap : ∀ c ∈ gap, isBlank c = true) (text : Text) :
    wordsOf (gap ++ text) = wordsOf text := by
  induction gap with
  | nil => rfl
  | cons c gap ih =>
    obtain ⟨hc, hgap⟩ := List.forall_mem_cons.mp hgap
    exact (wordsOf_append_blank hc [] (gap ++ text)).trans (ih hgap)

/-- Blanks keep the words before them and those after them apart. -/
theorem wordsOf_append_gap (hgap : ∀ c ∈ gap, isBlank c = true) (hne : gap ≠ [])
    (text rest : Text) : wordsOf (text ++ (gap ++ rest)) = wordsOf text ++ wordsOf rest := by
  obtain ⟨c, gap, rfl⟩ := List.exists_cons_of_ne_nil hne
  obtain ⟨hc, hgap⟩ := List.forall_mem_cons.mp hgap
  rw [List.cons_append, wordsOf_append_blank hc, wordsOf_blank_append hgap]

/-- Blanks after a text add no words. -/
theorem wordsOf_append_blanks (hgap : ∀ c ∈ gap, isBlank c = true) (text : Text) :
    wordsOf (text ++ gap) = wordsOf text := by
  by_cases hne : gap = []
  · rw [hne, List.append_nil]
  · have happend := wordsOf_append_gap hgap hne text []
    rwa [List.append_nil, show wordsOf [] = [] from rfl, List.append_nil] at happend

/-- A word has itself as its only word. -/
theorem IsSolid.wordsOf (h : IsSolid word) : wordsOf word = [word] := by
  rw [Text.wordsOf, List.splitOnP_eq_singleton h.2, List.filter_cons_of_pos (by simp [h.1]),
    List.filter_nil]

/-- A word at the end of a text is the end of its last word. -/
theorem IsSolid.exists_wordsOf_append (h : IsSolid word) (text : Text) :
    ∃ front rest, Text.wordsOf (text ++ word) = front ++ [rest ++ word] := by
  induction text using List.reverseRecOn generalizing word with
  | nil => exact ⟨[], [], h.wordsOf⟩
  | append_singleton text c ih =>
    rw [List.append_assoc]
    cases hc : isBlank c with
    | true =>
      refine ⟨Text.wordsOf text, [], ?_⟩
      rw [List.singleton_append, wordsOf_append_blank hc, h.wordsOf]
      rfl
    | false =>
      have hlonger : IsSolid ([c] ++ word) :=
        ⟨List.cons_ne_nil c word, List.forall_mem_cons.mpr ⟨hc, h.2⟩⟩
      obtain ⟨front, rest, hwords⟩ := ih hlonger
      exact ⟨front, rest ++ [c], by rw [hwords, List.append_assoc]⟩

section Gaps

variable (hword : IsSolid word) (hgap : ∀ c ∈ gap, isBlank c = true) (hne : gap ≠ [])

include hword hgap

/-- The only word of a word and blanks. -/
theorem wordsOf_word_blanks : wordsOf (word ++ gap) = [word] := by
  rw [wordsOf_append_blanks hgap, hword.wordsOf]

/-- The words of a text that ends in a word and blanks. -/
theorem exists_wordsOf_blanks (start : Text) :
    ∃ front first, wordsOf (start ++ (word ++ gap)) = front ++ [first ++ word] := by
  rw [← List.append_assoc, wordsOf_append_blanks hgap]
  exact hword.exists_wordsOf_append start

include hne

/-- The words of a word, blanks, and more. -/
theorem wordsOf_word_gap (rest : Text) :
    wordsOf (word ++ (gap ++ rest)) = word :: wordsOf rest := by
  rw [wordsOf_append_gap hgap hne, hword.wordsOf]
  rfl

/-- The words of a text in which a word and blanks stand. -/
theorem exists_wordsOf_gap (start rest : Text) :
    ∃ front first, wordsOf (start ++ (word ++ (gap ++ rest))) =
      front ++ (first ++ word) :: wordsOf rest := by
  obtain ⟨front, first, hwords⟩ := hword.exists_wordsOf_append start
  refine ⟨front, first, ?_⟩
  rw [← List.append_assoc, wordsOf_append_gap hgap hne, hwords, List.append_assoc]
  rfl

end Gaps

/-- A word and what does not go on with it. -/
theorem IsSolid.wordsOf_append {rest : Text} (h : IsSolid word)
    (hrest : ∀ c ∈ rest.head?, isBlank c = true) :
    Text.wordsOf (word ++ rest) = word :: Text.wordsOf rest := by
  cases rest with
  | nil => rw [List.append_nil, h.wordsOf]; rfl
  | cons c rest =>
    have hc : isBlank c = true := hrest c rfl
    rw [wordsOf_append_blank hc, h.wordsOf]
    exact congrArg (word :: ·) (wordsOf_append_blank hc [] rest).symm

/-- A text begins with blanks, or with blanks and its first word. -/
theorem blank_or_exists_word (text : Text) : (∀ c ∈ text, isBlank c = true) ∨
    ∃ gap word rest, text = gap ++ (word ++ rest) ∧ (∀ c ∈ gap, isBlank c = true) ∧
      IsSolid word ∧ ∀ c ∈ rest.head?, isBlank c = true := by
  induction text with
  | nil => exact Or.inl nofun
  | cons c text ih =>
    cases hc : isBlank c with
    | true =>
      rcases ih with hblank | ⟨gap, word, rest, rfl, hgap, hword⟩
      · exact Or.inl (List.forall_mem_cons.mpr ⟨hc, hblank⟩)
      · exact Or.inr ⟨c :: gap, word, rest, rfl, List.forall_mem_cons.mpr ⟨hc, hgap⟩, hword⟩
    | false =>
      have hsingle : IsSolid [c] := ⟨List.cons_ne_nil c [], List.forall_mem_singleton.mpr hc⟩
      rcases ih with hblank | ⟨gap, word, rest, rfl, hgap, hword, hrest⟩
      · exact Or.inr ⟨[], [c], text, rfl, nofun, hsingle, fun d hd =>
          hblank d (List.mem_of_mem_head? hd)⟩
      · cases gap with
        | nil =>
          exact Or.inr ⟨[], c :: word, rest, rfl, nofun,
            ⟨List.cons_ne_nil c word, List.forall_mem_cons.mpr ⟨hc, hword.2⟩⟩, hrest⟩
        | cons d gap =>
          refine Or.inr ⟨[], [c], _, rfl, nofun, hsingle, fun e he => ?_⟩
          obtain rfl : d = e := Option.some.inj he
          exact hgap d List.mem_cons_self

/-- A text with words begins with blanks and the first of them. -/
theorem exists_of_wordsOf_eq_cons (h : wordsOf text = word :: words) :
    ∃ gap rest, text = gap ++ (word ++ rest) ∧ ∀ c ∈ gap, isBlank c = true := by
  rcases blank_or_exists_word text with hblank | ⟨gap, first, rest, rfl, hgap, hfirst, hrest⟩
  · have hnone := wordsOf_blank_append hblank []
    rw [List.append_nil, h] at hnone
    cases hnone
  · rw [wordsOf_blank_append hgap, hfirst.wordsOf_append hrest] at h
    obtain ⟨rfl, -⟩ := List.cons.inj h
    exact ⟨gap, rest, rfl, hgap⟩

/-- What stands between two words of a line: blanks, at least one, and no line break. -/
structure IsSpace (gap : Text) : Prop where
  /-- There is a blank. -/
  ne_nil : gap ≠ []
  /-- There are only blanks. -/
  blank : ∀ c ∈ gap, isBlank c = true
  /-- The line goes on. -/
  no_break : ∀ c ∈ gap, isLineBreak c = false

/-- A text is laid out as words if they stand on a line with blanks between them. -/
inductive IsLaidOut : List Text → Text → Prop
  /-- A word alone. -/
  | single (word : Text) : IsLaidOut [word] word
  /-- A word, blanks, and more words. -/
  | cons {words : List Text} {gap text : Text} (word : Text) :
      IsSpace gap → IsLaidOut words text → IsLaidOut (word :: words) (word ++ (gap ++ text))

namespace IsLaidOut

/-- A text that is laid out as words has these words. -/
theorem wordsOf_eq (h : IsLaidOut words text) (hwords : ∀ word ∈ words, IsSolid word) :
    wordsOf text = words := by
  induction h with
  | single word => exact (hwords word (List.mem_singleton_self word)).wordsOf
  | cons word hgap _ ih =>
    obtain ⟨hword, hwords⟩ := List.forall_mem_cons.mp hwords
    rw [wordsOf_append_gap hgap.blank hgap.ne_nil, hword.wordsOf, ih hwords]
    rfl

/-- Words and others are laid out as the words, blanks, and the others. -/
theorem split (h : IsLaidOut (words ++ others) text) (hwords : words ≠ []) (hothers : others ≠ []) :
    ∃ before gap after, text = before ++ (gap ++ after) ∧ IsLaidOut words before ∧ IsSpace gap ∧
      IsLaidOut others after := by
  induction words generalizing text with
  | nil => exact absurd rfl hwords
  | cons word words ih =>
    by_cases hmore : words = []
    · subst hmore
      cases h with
      | single => exact absurd rfl hothers
      | @cons _ gap after _ hgap hafter => exact ⟨word, gap, after, rfl, .single word, hgap, hafter⟩
    · rw [List.cons_append] at h
      generalize hall : words ++ others = all at h
      cases h with
      | single => exact absurd (List.append_eq_nil_iff.mp hall).1 hmore
      | @cons _ first rest _ hfirst hrest =>
        subst hall
        obtain ⟨before, gap, after, rfl, hbefore, hgap, hafter⟩ := ih hrest hmore
        exact ⟨word ++ (first ++ before), gap, after, by simp only [List.append_assoc],
          .cons word hfirst hbefore, hgap, hafter⟩

/-- What holds of the blanks of a line and of the characters of the words holds of the text. -/
theorem forall_mem {p : Char → Prop} (h : IsLaidOut words text)
    (hgap : ∀ c, isBlank c = true → isLineBreak c = false → p c)
    (hwords : ∀ word ∈ words, ∀ c ∈ word, p c) : ∀ c ∈ text, p c := by
  induction h with
  | single word => exact hwords word (List.mem_singleton_self word)
  | cons word hspace _ ih =>
    obtain ⟨hword, hwords⟩ := List.forall_mem_cons.mp hwords
    simp only [List.forall_mem_append]
    exact ⟨hword, fun c hc => hgap c (hspace.blank c hc) (hspace.no_break c hc), ih hwords⟩

/-- A single word is laid out as itself. -/
theorem eq_of_single (h : IsLaidOut [word] text) : word = text := by
  cases h with
  | single => rfl
  | cons _ _ h => cases h

/-- The first word begins the text. -/
theorem word_prefix (h : IsLaidOut (word :: words) text) : word <+: text := by
  cases h with
  | single => exact List.prefix_rfl
  | cons => exact List.prefix_append _ _

/-- A word and others are laid out as the word, blanks, and the others. -/
theorem exists_of_cons {next : Text} (h : IsLaidOut (word :: next :: words) text) :
    ∃ gap rest, text = word ++ (gap ++ rest) ∧ IsSpace gap ∧ IsLaidOut (next :: words) rest := by
  cases h with
  | @cons _ gap rest _ hgap hrest => exact ⟨gap, rest, rfl, hgap, hrest⟩

end IsLaidOut

end SourceLoom.Text
