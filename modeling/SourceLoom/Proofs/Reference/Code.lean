import SourceLoom.Proofs.Reference.Forms
import SourceLoom.Proofs.Text.Lines

/-!
# The code of a text

The lines of a text that are searched, joined again, are its code. A line that begins with a
character that is neither blank nor begins a comment belongs to the code. So between two pieces of
text that begin so, blanks stay blanks: those on a line stay as they are, and where they break the
line, blank lines among them go. Every reference that is found is quoted in the code, after a lead.
-/

namespace SourceLoom.Reference

/-- The lines of a text that are searched, joined. -/
def codeOf (text : Text) : Text := Text.join ['\n'] (codeLines text)

/-- A text begins with a character that is neither blank nor begins a comment. -/
def StartsCode (text : Text) : Prop :=
  ∃ c rest, text = c :: rest ∧ Text.isBlank c = false ∧ c ≠ '/' ∧ c ≠ '*'

/-- A text that begins so still does with more text after it. -/
theorem StartsCode.append {text : Text} (h : StartsCode text) (more : Text) :
    StartsCode (text ++ more) := by
  obtain ⟨c, rest, rfl, hc⟩ := h
  exact ⟨c, rest ++ more, rfl, hc⟩

/-- A name begins so. -/
theorem IsName.startsCode {name : Text} (h : IsName name) : StartsCode name := by
  obtain ⟨c, rest, rfl⟩ := List.exists_cons_of_ne_nil h.1
  have hc := h.2 c List.mem_cons_self
  refine ⟨c, rest, rfl, Text.not_isBlank_of_isWord hc, ?_, ?_⟩
  · rintro rfl
    exact absurd hc (by decide)
  · rintro rfl
    exact absurd hc (by decide)

/-- No line break is in a name. -/
theorem IsName.no_break {name : Text} (h : IsName name) :
    ∀ c ∈ name, Text.isLineBreak c = false := fun c hc =>
  Text.not_isLineBreak_of_not_isBlank (Text.not_isBlank_of_isWord (h.2 c hc))

/-- A line that begins so after blanks belongs to the code. -/
theorem isCodeLine_append {gap line : Text} (hgap : IsBlank gap) (h : StartsCode line) :
    isCodeLine (gap ++ line) = true := by
  obtain ⟨c, rest, rfl, hc, hslash, hstar⟩ := h
  obtain ⟨kept, hkept⟩ := Text.exists_strip_cons hc rest
  have hstrip : Text.strip (gap ++ c :: rest) = c :: kept := (Text.strip_append hgap).trans hkept
  have hcomment : isCommentLine (c :: kept) = false := by
    simp [isCommentLine, commentMarks, List.isPrefixOf_cons_cons, Ne.symm hslash, Ne.symm hstar]
  unfold isCodeLine
  rw [hstrip, hcomment]
  simp

/-- A line that begins so belongs to the code. -/
theorem StartsCode.isCodeLine {line : Text} (h : StartsCode line) : isCodeLine line = true := by
  have hempty : IsBlank [] := nofun
  exact isCodeLine_append hempty h

/-- A blank line does not belong to the code. -/
theorem isCodeLine_of_isBlank {line : Text} (h : IsBlank line) : isCodeLine line = false := by
  have hstrip : Text.strip (line ++ []) = Text.strip [] := Text.strip_append h
  rw [List.append_nil] at hstrip
  unfold isCodeLine
  rw [hstrip]
  rfl

/-- The first line of a text that begins so begins so. -/
theorem exists_lines {text : Text} (h : StartsCode text) :
    ∃ line more, Text.lines text = line :: more ∧ StartsCode line := by
  obtain ⟨c, rest, rfl, hc, hmarks⟩ := h
  have hbreak := Text.not_isLineBreak_of_not_isBlank hc
  rw [Text.lines_cons hbreak]
  split
  · exact ⟨[c], [], rfl, c, [], rfl, hc, hmarks⟩
  · rename_i hrest
    cases hlines : Text.lines rest with
    | nil => exact absurd hlines (Text.lines_ne_nil hrest)
    | cons line more => exact ⟨c :: line, more, rfl, c, line, rfl, hc, hmarks⟩

/-- Blanks between two pieces of code stay blanks in it. -/
theorem exists_codeOf_append {before gap rest : Text} (hbefore : StartsCode before)
    (hbreak : ∀ c ∈ before, Text.isLineBreak c = false) (hgap : IsBlank gap)
    (hrest : StartsCode rest) :
    ∃ settled, IsBlank settled ∧
      codeOf (before ++ gap ++ rest) = before ++ settled ++ codeOf rest := by
  obtain ⟨line, more, hlines, hline⟩ := exists_lines hrest
  have hgapLines : ∃ silent last, (∀ line ∈ silent, IsBlank line) ∧ IsBlank last ∧
      Text.lines (gap ++ rest) = silent ++ (Text.lines rest).modifyHead (last ++ ·) := by
    obtain ⟨c, tail, rfl, hc, -⟩ := hrest
    exact Text.lines_blank_append hgap hc
  obtain ⟨silent, last, hsilent, hlast, hgapLines⟩ := hgapLines
  have hne : gap ++ rest ≠ [] := by
    obtain ⟨c, tail, rfl, -⟩ := hrest
    simp
  have hwhole : codeOf (before ++ gap ++ rest) = Text.join ['\n']
      (((silent ++ (last ++ line) :: more).modifyHead (before ++ ·)).filter isCodeLine) := by
    unfold codeOf codeLines
    rw [List.append_assoc, Text.lines_append hbreak hne, hgapLines, hlines, List.modifyHead_cons]
  have hcode : codeOf rest = Text.join ['\n'] (line :: more.filter isCodeLine) := by
    unfold codeOf codeLines
    rw [hlines, List.filter_cons_of_pos hline.isCodeLine]
  rw [hwhole, hcode]
  cases silent with
  | nil =>
    refine ⟨last, hlast, ?_⟩
    have hfirst : isCodeLine (before ++ (last ++ line)) = true := (hbefore.append _).isCodeLine
    rw [List.nil_append, List.modifyHead_cons, List.filter_cons_of_pos hfirst,
      ← List.append_assoc, Text.join_append_cons]
  | cons first silent =>
    refine ⟨first ++ '\n' :: last, ?_, ?_⟩
    · refine List.forall_mem_append.mpr ⟨hsilent first List.mem_cons_self, ?_⟩
      exact List.forall_mem_cons.mpr ⟨by decide, hlast⟩
    · have hfirst : isCodeLine (before ++ first) = true := (hbefore.append _).isCodeLine
      have hsecond : isCodeLine (last ++ line) = true := isCodeLine_append hlast hline
      have hdropped : silent.filter isCodeLine = [] := by
        rw [List.filter_eq_nil_iff]
        intro line hline
        rw [isCodeLine_of_isBlank (hsilent line (List.mem_cons_of_mem _ hline))]
        exact Bool.false_ne_true
      rw [List.cons_append, List.modifyHead_cons, List.filter_cons_of_pos hfirst,
        List.filter_append, hdropped, List.nil_append, List.filter_cons_of_pos hsecond, Text.join,
        Text.join_append_cons]
      simp only [List.append_assoc, List.cons_append, List.nil_append]

/-- A text without line breaks that begins so is its own code. -/
theorem codeLines_of_no_break {text : Text} (h : StartsCode text)
    (hbreak : ∀ c ∈ text, Text.isLineBreak c = false) : codeLines text = [text] := by
  have hne : text ≠ [] := by
    obtain ⟨c, rest, rfl, -⟩ := h
    exact List.cons_ne_nil c rest
  rw [codeLines, Text.lines_of_no_break hne hbreak, List.filter_cons_of_pos h.isCodeLine,
    List.filter_nil]

/-- A reference that is found on a line stands there between two quotes, after a lead. -/
theorem exists_literal_of_mem_onLine {stripped reference : Text} (h : reference ∈ onLine stripped) :
    ∃ before literal after, stripped = before ++ literal ++ after ∧ EndsInLead before ∧
      IsLiteral reference literal := by
  rw [onLine, List.mem_append, List.mem_flatMap] at h
  rcases h with ⟨form, hform, hfound⟩ | heffect
  · have hmem : form ∈ effectForm :: (lineForms ++ textForms) := by
      rw [List.mem_cons, List.mem_append]
      exact Or.inr (Or.inl hform)
    exact exists_literal_of_mem_found hmem hfound
  · split at heffect
    · cases heffect
    · exact exists_literal_of_mem_found List.mem_cons_self heffect

/-- Every reference that is found in lines that are searched stands between two quotes in them,
after a lead. -/
theorem exists_literal_of_mem_inCode {lines : List Text} {reference : Text}
    (h : reference ∈ inCode lines) :
    ∃ before literal after, Text.join ['\n'] lines = before ++ literal ++ after ∧
      EndsInLead before ∧ IsLiteral reference literal := by
  rw [inCode, List.mem_append, List.mem_flatMap, List.mem_flatMap] at h
  rcases h with ⟨line, hline, hfound⟩ | ⟨form, hform, hfound⟩
  · obtain ⟨before, literal, after, hstrip, ⟨lead, hsuffix, hlead⟩, hliteral⟩ :=
      exists_literal_of_mem_onLine hfound
    obtain ⟨first, last, hwhole⟩ := (Text.strip_isInfix line).trans (Text.isInfix_join hline)
    refine ⟨first ++ before, literal, after ++ last, ?_,
      ⟨lead, hsuffix.trans (List.suffix_append first before), hlead⟩, hliteral⟩
    rw [← hwhole, hstrip]
    simp only [List.append_assoc]
  · have hmem : form ∈ effectForm :: (lineForms ++ textForms) := by
      rw [List.mem_cons, List.mem_append]
      exact Or.inr (Or.inr hform)
    exact exists_literal_of_mem_found hmem hfound

end SourceLoom.Reference
