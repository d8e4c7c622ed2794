import SourceLoom.Proofs.Reference.Code

/-!
# Line breaks and lines that are not searched

A line break cuts the code of a text in two: what stands before it has its code lines, and so has
what stands after it. This holds for a carriage return and the line feed after it too, since the
empty line between them is none of the code. So it makes no difference for the references of a text
with which breaks its lines end, and lines that are blank or comments may be put in and taken out
wherever a line begins, even within a statement.
-/

namespace SourceLoom.Reference

variable {before after line text other : Text} {c : Char}

/-- A first line that a break ends is searched on its own. -/
theorem codeLines_line_append (hline : ∀ d ∈ line, Text.isLineBreak d = false)
    (hc : Text.isLineBreak c = true) :
    codeLines (line ++ c :: after) = [line].filter isCodeLine ++ codeLines after := by
  have hempty : isCodeLine [] = false := by decide
  have hbreak : ∃ more, Text.lines (c :: after) = [] :: more ∧
      more.filter isCodeLine = codeLines after := by
    by_cases hfeed : c = '\r' ∧ after.head? = some '\n'
    · obtain ⟨rfl, hhead⟩ := hfeed
      obtain ⟨rest, rfl⟩ := List.head?_eq_some_iff.mp hhead
      refine ⟨Text.lines rest, rfl, ?_⟩
      rw [codeLines, Text.lines_cons_break (by decide) (fun h => absurd h.1 (by decide)),
        List.filter_cons_of_neg (by simp [hempty])]
    · exact ⟨Text.lines after, Text.lines_cons_break hc hfeed, rfl⟩
  obtain ⟨more, hmore, hcode⟩ := hbreak
  rw [codeLines, Text.lines_append hline (List.cons_ne_nil c after), hmore, List.modifyHead_cons,
    List.append_nil, ← hcode, ← List.filter_append]
  rfl

/-- A text without line breaks is searched if it is code. -/
theorem codeLines_line (hline : ∀ d ∈ line, Text.isLineBreak d = false) :
    codeLines line = [line].filter isCodeLine := by
  by_cases hne : line = []
  · subst hne
    decide
  · rw [codeLines, Text.lines_of_no_break hne hline]

/-- In a text no line breaks, or there is a first line. -/
theorem no_break_or_first (text : Text) :
    (∀ d ∈ text, Text.isLineBreak d = false) ∨ ∃ line c rest, text = line ++ c :: rest ∧
      (∀ d ∈ line, Text.isLineBreak d = false) ∧ Text.isLineBreak c = true := by
  induction text with
  | nil => exact Or.inl nofun
  | cons d text ih =>
    cases hd : Text.isLineBreak d with
    | true => exact Or.inr ⟨[], d, text, rfl, nofun, hd⟩
    | false =>
      rcases ih with hnone | ⟨line, c, rest, rfl, hline, hc⟩
      · exact Or.inl (List.forall_mem_cons.mpr ⟨hd, hnone⟩)
      · exact Or.inr ⟨d :: line, c, rest, rfl, List.forall_mem_cons.mpr ⟨hd, hline⟩, hc⟩

/-- A line break cuts the code of a text in two. -/
theorem codeLines_append_break (before : Text) (hc : Text.isLineBreak c = true) :
    codeLines (before ++ c :: after) = codeLines before ++ codeLines after := by
  induction hlength : before.length using Nat.strongRecOn generalizing before with
  | _ n ih =>
    rcases no_break_or_first before with hnone | ⟨line, d, rest, rfl, hline, hd⟩
    · rw [codeLines_line_append hnone hc, codeLines_line hnone]
    · have hshorter : rest.length < n := by
        rw [← hlength, List.length_append, List.length_cons]
        omega
      rw [List.append_assoc, List.cons_append, codeLines_line_append hline hd,
        codeLines_line_append hline hd, ih rest.length hshorter rest rfl, List.append_assoc]

/-- What may end a line: a line break, or a carriage return with a line feed. -/
def IsBreak (text : Text) : Prop :=
  text = ['\r', '\n'] ∨ ∃ c, Text.isLineBreak c = true ∧ text = [c]

/-- What ends a line cuts the code of a text in two. -/
theorem IsBreak.codeLines_append (h : IsBreak line) (before after : Text) :
    codeLines (before ++ (line ++ after)) = codeLines before ++ codeLines after := by
  rcases h with rfl | ⟨c, hc, rfl⟩
  · have hfeed : codeLines ('\n' :: after) = codeLines after :=
      codeLines_append_break [] (by decide)
    rw [← hfeed]
    exact codeLines_append_break before (by decide)
  · exact codeLines_append_break before hc

/-- A line may begin after a text: the text is empty, or it ends in a line break. -/
def EndsLine (text : Text) : Prop :=
  text = [] ∨ ∃ front c, text = front ++ [c] ∧ Text.isLineBreak c = true

/-- Where a line begins, the code of a text is cut in two. -/
theorem EndsLine.codeLines_append (h : EndsLine before) (after : Text) :
    codeLines (before ++ after) = codeLines before ++ codeLines after := by
  rcases h with rfl | ⟨front, c, rfl, hc⟩
  · rfl
  · have hfront : codeLines (front ++ [c]) = codeLines front := by
      rw [codeLines_append_break front hc]
      exact List.append_nil _
    rw [hfront, List.append_assoc]
    exact codeLines_append_break front hc

/-- All lines of a text are blank, or begin a comment or go on with one. -/
def IsSilent (text : Text) : Prop :=
  ∀ line ∈ Text.lines text, Text.strip line = [] ∨ isCommentLine (Text.strip line) = true

/-- No line of a silent text is searched. -/
theorem IsSilent.codeLines_eq_nil (h : IsSilent text) : codeLines text = [] := by
  refine List.filter_eq_nil_iff.mpr fun line hline => ?_
  rcases h line hline with hblank | hcomment
  · simp [isCodeLine, hblank]
  · simp [isCodeLine, hcomment]

/-- A text is another one with other line breaks, each changed by itself. -/
inductive Rebroken : Text → Text → Prop
  /-- Nothing is left. -/
  | nil : Rebroken [] []
  /-- A character stays. -/
  | keep {text other : Text} (c : Char) : Rebroken text other → Rebroken (c :: text) (c :: other)
  /-- Something else ends a line. -/
  | change {text other last : Text} {c : Char} : Text.isLineBreak c = true → IsBreak last →
      Rebroken text other → Rebroken (c :: text) (last ++ other)

/-- With other line breaks the code stays the same, also after the beginning of a line. -/
theorem Rebroken.codeLines_eq (h : Rebroken text other) (before : Text)
    (hbefore : ∀ d ∈ before, Text.isLineBreak d = false) :
    codeLines (before ++ other) = codeLines (before ++ text) := by
  induction h generalizing before with
  | nil => rfl
  | @keep text other c _ ih =>
    cases hc : Text.isLineBreak c with
    | false =>
      have hlonger : ∀ d ∈ before ++ [c], Text.isLineBreak d = false :=
        List.forall_mem_append.mpr ⟨hbefore, List.forall_mem_singleton.mpr hc⟩
      have hsame := ih (before ++ [c]) hlonger
      rwa [List.append_assoc, List.append_assoc] at hsame
    | true =>
      rw [codeLines_append_break before hc, codeLines_append_break before hc]
      exact congrArg (codeLines before ++ ·) (ih [] nofun)
  | change hc hlast _ ih =>
    rw [hlast.codeLines_append, codeLines_append_break before hc]
    exact congrArg (codeLines before ++ ·) (ih [] nofun)

/-- A text whose line feeds have given way to something else that ends a line. -/
def endedBy (last text : Text) : Text := text.flatMap fun c => if c = '\n' then last else [c]

/-- Where line feeds give way, each line break is changed by itself. -/
theorem IsBreak.rebroken (h : IsBreak line) (text : Text) : Rebroken text (endedBy line text) := by
  induction text with
  | nil => exact .nil
  | cons c text ih =>
    rw [endedBy, List.flatMap_cons]
    split
    · rename_i hc
      subst hc
      exact .change (by decide) h ih
    · exact .keep c ih

/-- Lines that are not searched may be put in wherever a line begins, and lines may end with any
breaks: the references are the same, in the same order. -/
theorem extract_layout :
    (∀ before silent last after, EndsLine before → IsSilent silent → IsBreak last →
      extract (before ++ silent ++ last ++ after) = extract (before ++ after)) ∧
    ∀ text other, Rebroken text other → extract other = extract text := by
  constructor
  · intro before silent last after hbefore hsilent hlast
    have hcode : codeLines (before ++ (silent ++ (last ++ after))) =
        codeLines (before ++ after) := by
      rw [hbefore.codeLines_append, hlast.codeLines_append, hsilent.codeLines_eq_nil,
        hbefore.codeLines_append, List.nil_append]
    simp only [List.append_assoc]
    rw [extract, hcode, extract]
  · intro text other h
    have hcode : codeLines other = codeLines text := h.codeLines_eq [] nofun
    rw [extract, hcode, extract]

/-- Comments and a blank line within an import, whose lines may end in another way. -/
theorem extract_layout_inside :
    EndsLine "import \x7b\n".toList ∧ IsSilent "  // old\n\n * one".toList ∧
      IsBreak "\r\n".toList ∧
      extract "import \x7b\n  // old\n\n * one\r\n  a\n\x7d from './x'".toList = ["./x".toList] ∧
      Rebroken "import \x7b\n  a\n\x7d from './x'".toList
        "import \x7b\r\n  a\r\n\x7d from './x'".toList ∧
      extract "import \x7b\r\n  a\r\n\x7d from './x'".toList = ["./x".toList] := by
  have hwhole : extract "import \x7b\n  a\n\x7d from './x'".toList = ["./x".toList] := by
    decide +kernel
  have hbefore : EndsLine "import \x7b\n".toList :=
    Or.inr ⟨"import \x7b".toList, '\n', rfl, by decide⟩
  have hsilent : IsSilent "  // old\n\n * one".toList := by
    unfold IsSilent
    decide
  have hlast : IsBreak "\r\n".toList := Or.inl rfl
  have hinside := extract_layout.1 _ _ _ "  a\n\x7d from './x'".toList hbefore hsilent hlast
  have hrebroken := hlast.rebroken "import \x7b\n  a\n\x7d from './x'".toList
  have hended := extract_layout.2 _ _ hrebroken
  exact ⟨hbefore, hsilent, hlast, hinside.trans hwhole, hrebroken, hended.trans hwhole⟩

end SourceLoom.Reference
