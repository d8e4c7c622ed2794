import SourceLoom.Proofs.Distinct
import SourceLoom.Proofs.Reference.Overlap

/-!
# The references of a module

A module is a row of lines: statements on one line, statements with their names on lines of their
own, blank lines and comments, and lines without quotes. In a module exactly the references of its
statements are found, each once. References on one line are found there; those of braced statements
are found in the code of the module.
-/

namespace SourceLoom.Reference

open Pattern

variable {reference literal text line : Text} {group lines references : List Text}

/-- Only names, commas and blanks are in a text, and it is one line. -/
def IsNaming (text : Text) : Prop :=
  ∀ c ∈ text, Text.isWord c = true ∨ c = ',' ∨ Text.isBlank c = true ∧ Text.isLineBreak c = false

/-- Texts can be tested for holding only names, commas and blanks. -/
instance (text : Text) : Decidable (IsNaming text) := by
  unfold IsNaming
  infer_instance

/-- A text is a statement on one line with a reference. -/
inductive IsStatement : Text → Text → Prop
  /-- A statement with names in braces. -/
  | braced {kind : Braced} {inner reference literal last : Text} :
      kind.IsProper → IsNaming inner → IsLiteral reference literal → IsEnd last →
        IsStatement (kind.statement inner literal ++ last) reference
  /-- A statement without braces. No word `from` stands in a reference that is imported for its
  effect. -/
  | bare {kind : Bare} {reference literal last : Text} :
      kind.IsProper → IsLiteral reference literal → IsEnd last →
        (kind = .importEffect → ¬" from ".toList <:+: reference) →
          IsStatement (kind.statement literal ++ last) reference

/-- Lines are a statement with a reference. -/
inductive IsGroup : List Text → Text → Prop
  /-- One line is a statement. -/
  | single {line reference : Text} : IsStatement (Text.strip line) reference →
      IsGroup [line] reference
  /-- The lines between the braces of a statement that imports no types have names, or are blank or
  comments. -/
  | spread {kind : Braced} {first last literal reference mark : Text} {between : List Text} :
      kind.IsProper → kind ≠ .importTypes → Text.strip first = kind.start ++ ['\x7b'] →
        (∀ line ∈ between, IsNaming line ∨ isCodeLine line = false) →
          Text.strip last = '\x7d' :: kind.link ++ literal ++ kind.close ++ mark →
            IsLiteral reference literal → IsEnd mark →
              IsGroup (first :: between ++ [last]) reference

/-- Lines are a module with the references of its statements, in order. -/
inductive IsModule : List Text → List Text → Prop
  /-- No lines. -/
  | nil : IsModule [] []
  /-- A statement, and more lines. -/
  | group {group lines references : List Text} {reference : Text} : IsGroup group reference →
      IsModule lines references → IsModule (group ++ lines) (reference :: references)
  /-- A blank line or a comment, and more lines. -/
  | silent {line : Text} {lines references : List Text} : isCodeLine line = false →
      IsModule lines references → IsModule (line :: lines) references
  /-- A line without quotes, and more lines. -/
  | other {line : Text} {lines references : List Text} : QuoteFree line →
      IsModule lines references → IsModule (line :: lines) references

section Lines

/-- Names, commas and blanks are neither quotes nor closing braces, and no line feed. -/
theorem IsNaming.quoteFree (h : IsNaming text) :
    QuoteFree text ∧ '\x7d' ∉ text ∧ '\n' ∉ text := by
  refine ⟨fun c hc hquote => ?_, fun hmem => ?_, fun hmem => ?_⟩
  · rcases h c hc with hword | rfl | ⟨hblank, -⟩
    · rw [not_isWord_of_mem_quotes hquote] at hword
      cases hword
    · exact absurd hquote (by decide)
    · rw [not_isBlank_of_mem_quotes hquote] at hblank
      cases hblank
  · exact absurd (h _ hmem) (by decide)
  · exact absurd (h _ hmem) (by decide)

/-- A line that begins neither with a comment mark nor is blank belongs to the code. -/
theorem isCodeLine_of_strip (h : StartsCode (Text.strip line)) : isCodeLine line = true := by
  obtain ⟨before, after, hbefore, -, hline⟩ := Text.exists_strip line
  rw [hline, List.append_assoc]
  exact isCodeLine_append hbefore (h.append after)

/-- What is quoted on a stripped line is quoted on the line. -/
theorem Quoting.of_strip (h : Quoting references (Text.strip line)) : Quoting references line := by
  obtain ⟨before, after, hbefore, hafter, hline⟩ := Text.exists_strip line
  have hlast : Quoting [] after := .nil (IsBlank.quoteFree hafter)
  have hall := (h.prepend (IsBlank.quoteFree hbefore)).append hlast
  rw [List.append_nil, ← hline] at hall
  exact hall

/-- A line without quotes is one that has none when it is stripped. -/
theorem QuoteFree.of_strip (h : QuoteFree (Text.strip line)) : QuoteFree line := by
  obtain ⟨before, after, hbefore, hafter, hline⟩ := Text.exists_strip line
  rw [hline, quoteFree_append, quoteFree_append]
  exact ⟨⟨IsBlank.quoteFree hbefore, h⟩, IsBlank.quoteFree hafter⟩

/-- A statement on one line begins no comment, and only its reference is quoted in it. -/
theorem IsStatement.quoting (h : IsStatement text reference) :
    StartsCode text ∧ Quoting [reference] text := by
  cases h with
  | braced hkind hinner hliteral hlast =>
    refine ⟨?_, Braced.quoting hkind hinner.quoteFree.1 hliteral hlast.isPlain.quoteFree⟩
    simp only [Braced.statement, List.append_assoc]
    exact (Braced.isPlain_start hkind).2.append _
  | bare hkind hliteral hlast =>
    refine ⟨?_, Bare.quoting hkind hliteral hlast.isPlain.quoteFree⟩
    simp only [Bare.statement, List.append_assoc]
    exact (Bare.isPlain_start hkind).2.append _

/-- The last line of a statement belongs to the code, and only its reference is quoted there; the
lines before it have no quotes, unless they are comments. -/
theorem IsGroup.exists_last (h : IsGroup group reference) :
    ∃ quiet last, group = quiet ++ [last] ∧
      (∀ line ∈ quiet, isCodeLine line = true → QuoteFree line) ∧ isCodeLine last = true ∧
      Quoting [reference] last := by
  cases h with
  | single hstatement =>
    obtain ⟨hstart, hquoting⟩ := hstatement.quoting
    exact ⟨[], _, rfl, nofun, isCodeLine_of_strip hstart, hquoting.of_strip⟩
  | @spread kind first last literal _ mark between hkind _ hfirst hbetween hlast hliteral hmark =>
    have hquiet : ∀ line ∈ first :: between, isCodeLine line = true → QuoteFree line := by
      refine List.forall_mem_cons.mpr ⟨fun _ => ?_, fun line hline hcode => ?_⟩
      · refine QuoteFree.of_strip ?_
        rw [hfirst, quoteFree_append]
        exact ⟨(Braced.isPlain_start hkind).1.quoteFree, by decide⟩
      · rcases hbetween line hline with hnaming | hsilent
        · exact hnaming.quoteFree.1
        · rw [hsilent] at hcode
          cases hcode
    refine ⟨first :: between, last, rfl, hquiet, isCodeLine_of_strip ?_, Quoting.of_strip ?_⟩
    · rw [hlast]
      exact ⟨'\x7d', _, rfl, by decide, by decide, by decide⟩
    · have hlink : QuoteFree ('\x7d' :: kind.link) :=
        quoteFree_cons.mpr ⟨by decide, Braced.isPlain_link.quoteFree⟩
      have hend : QuoteFree (kind.close ++ mark) :=
        quoteFree_append.mpr ⟨Braced.isPlain_close.quoteFree, hmark.isPlain.quoteFree⟩
      rw [hlast, List.append_assoc, List.append_assoc]
      exact Quoting.around hlink hliteral hend

/-- No quote is in lines that have none. -/
theorem quoteFree_flatMap (h : ∀ line ∈ lines, QuoteFree line) :
    QuoteFree (lines.flatMap (· ++ ['\n'])) := by
  intro c hc
  obtain ⟨line, hline, hmem⟩ := List.mem_flatMap.mp hc
  rcases List.mem_append.mp hmem with hmem | hmem
  · exact h line hline c hmem
  · rw [List.mem_singleton.mp hmem]
    decide

/-- Only the reference of a statement is quoted in its lines. -/
theorem IsGroup.quoting (h : IsGroup group reference) :
    Quoting [reference] ((group.filter isCodeLine).flatMap (· ++ ['\n'])) := by
  obtain ⟨quiet, last, rfl, hquiet, hlast, hquoting⟩ := h.exists_last
  have hfree : QuoteFree ((quiet.filter isCodeLine).flatMap (· ++ ['\n'])) := by
    refine quoteFree_flatMap fun line hline => ?_
    obtain ⟨hmem, hcode⟩ := List.mem_filter.mp hline
    exact hquiet line hmem hcode
  have hbreak : QuoteFree ['\n'] := by decide
  have hall := (hquoting.append (.nil hbreak)).prepend hfree
  rw [List.filter_append, List.flatMap_append, List.filter_cons_of_pos hlast, List.filter_nil,
    List.flatMap_singleton]
  exact hall

/-- The references of a module are quoted in its code, one after the other, and nothing else is. -/
theorem IsModule.quoting (h : IsModule lines references) :
    Quoting references ((lines.filter isCodeLine).flatMap (· ++ ['\n'])) := by
  induction h with
  | nil => exact .nil nofun
  | group hgroup _ ih =>
    rw [List.filter_append, List.flatMap_append]
    exact hgroup.quoting.append ih
  | silent hline _ ih =>
    rwa [List.filter_cons_of_neg (by rw [hline]; exact Bool.false_ne_true)]
  | @other line _ _ hline _ ih =>
    by_cases hcode : isCodeLine line = true
    · have hfree : QuoteFree (line ++ ['\n']) := quoteFree_append.mpr ⟨hline, by decide⟩
      rw [List.filter_cons_of_pos hcode, List.flatMap_cons]
      exact ih.prepend hfree
    · rwa [List.filter_cons_of_neg hcode]

/-- On a line of a module that belongs to the code at most one reference is quoted. -/
theorem IsModule.line_quoting (h : IsModule lines references) (hline : line ∈ lines)
    (hcode : isCodeLine line = true) :
    QuoteFree line ∨ ∃ reference ∈ references, Quoting [reference] line := by
  induction h with
  | nil => cases hline
  | @group group _ _ reference hgroup _ ih =>
    rcases List.mem_append.mp hline with hmem | hmem
    · obtain ⟨quiet, last, rfl, hquiet, -, hquoting⟩ := hgroup.exists_last
      rcases List.mem_append.mp hmem with hmem | hmem
      · exact Or.inl (hquiet line hmem hcode)
      · rw [List.mem_singleton.mp hmem]
        exact Or.inr ⟨reference, List.mem_cons_self, hquoting⟩
    · rcases ih hmem with hfree | ⟨other, hother, hquoting⟩
      · exact Or.inl hfree
      · exact Or.inr ⟨other, List.mem_cons_of_mem _ hother, hquoting⟩
  | silent hsilent _ ih =>
    rcases List.mem_cons.mp hline with rfl | hmem
    · rw [hsilent] at hcode
      cases hcode
    · exact ih hmem
  | other hfree _ ih =>
    rcases List.mem_cons.mp hline with rfl | hmem
    · exact Or.inl hfree
    · exact ih hmem

/-- Every reference of a module is that of a statement, with other statements before it. -/
theorem IsModule.exists_group (h : IsModule lines references) (hmem : reference ∈ references) :
    ∃ earlier group later before, lines = earlier ++ (group ++ later) ∧ IsModule earlier before ∧
      (∀ other ∈ before, other ∈ references) ∧ IsGroup group reference := by
  induction h with
  | nil => cases hmem
  | @group first lines references other hgroup hlines ih =>
    rcases List.mem_cons.mp hmem with rfl | hmem
    · exact ⟨[], first, lines, [], rfl, .nil, nofun, hgroup⟩
    · obtain ⟨earlier, group, later, before, rfl, hearlier, hbefore, hmember⟩ := ih hmem
      refine ⟨first ++ earlier, group, later, other :: before, ?_, IsModule.group hgroup hearlier,
        ?_, hmember⟩
      · rw [List.append_assoc]
      · exact List.forall_mem_cons.mpr ⟨List.mem_cons_self,
          fun other hother => List.mem_cons_of_mem _ (hbefore other hother)⟩
  | @silent line lines references hline _ ih =>
    obtain ⟨earlier, group, later, before, rfl, hearlier, hbefore, hmember⟩ := ih hmem
    exact ⟨line :: earlier, group, later, before, rfl, .silent hline hearlier, hbefore, hmember⟩
  | @other line lines references hline _ ih =>
    obtain ⟨earlier, group, later, before, rfl, hearlier, hbefore, hmember⟩ := ih hmem
    exact ⟨line :: earlier, group, later, before, rfl, .other hline hearlier, hbefore, hmember⟩

end Lines

section Finding

/-- The code of a statement is the statement, with blanks before it and something after it. -/
def IsPieceOf (reference : Text) (code : Text) : Prop :=
  ∃ kind : Braced, ∃ before inner literal after, kind.IsProper ∧ kind ≠ .importTypes ∧
    IsBlank before ∧ QuoteFree inner ∧ '\x7d' ∉ inner ∧ IsLiteral reference literal ∧
      code = before ++ kind.statement inner literal ++ after

/-- The reference of a statement on one line is found on its line, or the statement is a piece of
a form that may spread over lines. -/
theorem IsStatement.found (h : IsStatement (Text.strip line) reference) :
    reference ∈ onLine (Text.strip line) ∨ IsPieceOf reference line := by
  obtain ⟨before, after, hbefore, -, hline⟩ := Text.exists_strip line
  generalize hstripped : Text.strip line = stripped at h hline
  cases h with
  | @braced kind inner _ literal last hkind hinner hliteral hlast =>
    obtain ⟨hfree, hbrace, hfeed⟩ := hinner.quoteFree
    by_cases htypes : kind = .importTypes
    · have hform : kind.form ∈ lineForms := by
        rw [htypes]
        decide
      have hfound := Braced.mem_found hkind hfree hbrace (fun _ => hfeed) hliteral
        hlast.isPlain.quoteFree
      rw [onLine, List.mem_append, List.mem_flatMap]
      exact Or.inl (Or.inl ⟨kind.form, hform, hfound⟩)
    · refine Or.inr ⟨kind, before, inner, literal, last ++ after, hkind, htypes, hbefore, hfree,
        hbrace, hliteral, ?_⟩
      rw [hline]
      simp only [List.append_assoc]
  | bare hkind hliteral hlast heffect => exact Or.inl (Bare.mem_onLine hkind hliteral hlast heffect)

/-- A statement with names on lines of their own is a piece of a form that may spread over lines. -/
theorem isPieceOf_spread {kind : Braced} {first last mark : Text} {between : List Text}
    (hkind : kind.IsProper) (htypes : kind ≠ .importTypes)
    (hfirst : Text.strip first = kind.start ++ ['\x7b'])
    (hbetween : ∀ line ∈ between, IsNaming line)
    (hlast : Text.strip last = '\x7d' :: kind.link ++ literal ++ kind.close ++ mark)
    (hliteral : IsLiteral reference literal) :
    IsPieceOf reference (Text.join ['\n'] (first :: between ++ [last])) := by
  obtain ⟨before, gap, hbefore, hgap, hfirstLine⟩ := Text.exists_strip first
  obtain ⟨indent, after, hindent, -, hlastLine⟩ := Text.exists_strip last
  have hnames : '\x7d' ∉ between.flatMap (· ++ ['\n']) := by
    intro hmem
    obtain ⟨line, hline, hbrace⟩ := List.mem_flatMap.mp hmem
    rcases List.mem_append.mp hbrace with hbrace | hbrace
    · exact (hbetween line hline).quoteFree.2.1 hbrace
    · exact absurd hbrace (by decide)
  have hfree : QuoteFree (between.flatMap (· ++ ['\n'])) :=
    quoteFree_flatMap fun line hline => (hbetween line hline).quoteFree.1
  refine ⟨kind, before, gap ++ '\n' :: between.flatMap (· ++ ['\n']) ++ indent, literal,
    mark ++ after, hkind, htypes, hbefore, ?_, ?_, hliteral, ?_⟩
  · simp only [quoteFree_append, quoteFree_cons]
    exact ⟨⟨IsBlank.quoteFree hgap, by decide, hfree⟩, IsBlank.quoteFree hindent⟩
  · simp only [List.mem_append, List.mem_cons, not_or]
    exact ⟨⟨IsBlank.not_mem_brace hgap, by decide, hnames⟩, IsBlank.not_mem_brace hindent⟩
  · rw [Text.join_append _ (List.cons_ne_nil last []), List.flatMap_cons, Text.join, hfirstLine,
      hlastLine, hfirst, hlast]
    simp only [Braced.statement, List.append_assoc, List.cons_append, List.nil_append]

/-- The reference of a statement is found on one of its lines, or the statement is a piece of a
form that may spread over lines. -/
theorem IsGroup.found (h : IsGroup group reference) :
    (∃ line ∈ group, isCodeLine line = true ∧ reference ∈ onLine (Text.strip line)) ∨
      IsPieceOf reference (Text.join ['\n'] (group.filter isCodeLine)) := by
  cases h with
  | @single line _ hstatement =>
    have hcode := isCodeLine_of_strip hstatement.quoting.1
    rcases hstatement.found with hmem | hpiece
    · exact Or.inl ⟨line, List.mem_singleton_self line, hcode, hmem⟩
    · rw [List.filter_cons_of_pos hcode, List.filter_nil]
      exact Or.inr hpiece
  | @spread kind first last literal _ mark between hkind htypes hfirst hbetween hlast hliteral =>
    have hfirstCode : isCodeLine first = true := by
      refine isCodeLine_of_strip ?_
      rw [hfirst]
      exact (Braced.isPlain_start hkind).2.append _
    have hlastCode : isCodeLine last = true := by
      refine isCodeLine_of_strip ?_
      rw [hlast]
      exact ⟨'\x7d', _, rfl, by decide, by decide, by decide⟩
    have hnaming : ∀ line ∈ between.filter isCodeLine, IsNaming line := by
      intro line hline
      obtain ⟨hmem, hcode⟩ := List.mem_filter.mp hline
      rcases hbetween line hmem with hnaming | hsilent
      · exact hnaming
      · rw [hsilent] at hcode
        cases hcode
    rw [List.filter_append, List.filter_cons_of_pos hfirstCode, List.filter_cons_of_pos hlastCode,
      List.filter_nil]
    exact Or.inr (isPieceOf_spread hkind htypes hfirst hnaming hlast hliteral)

/-- The reference of a piece of the code, with other statements before it, is found in the code. -/
theorem exists_mem_found_of_isPieceOf {before : List Text} {earlier code : Text} (rest : Text)
    (hclosed : ∀ other ∈ before, ¬IsOpen other) (hearlier : Quoting before earlier)
    (h : IsPieceOf reference code) :
    ∃ form ∈ textForms, reference ∈ found form (earlier ++ (code ++ rest)) := by
  obtain ⟨kind, gap, inner, literal, after, hkind, htypes, hgap, hfree, hbrace, hliteral, rfl⟩ := h
  have hquoting : Quoting before (earlier ++ gap) := by
    have hall := hearlier.append (.nil hgap.quoteFree)
    rwa [List.append_nil] at hall
  have hopening : QuoteFree (kind.start ++ '\x7b' :: inner) :=
    quoteFree_append.mpr ⟨(Braced.isPlain_start hkind).1.quoteFree,
      quoteFree_cons.mpr ⟨by decide, hfree⟩⟩
  have hstart : ∃ c more, kind.start ++ '\x7b' :: inner = c :: more ∧ Text.isBlank c = false ∧
      c ≠ ')' := by
    obtain ⟨c, more, hstart, hc⟩ := Braced.exists_isWord_start hkind
    refine ⟨c, more ++ '\x7b' :: inner, ?_, Text.not_isBlank_of_isWord hc, ?_⟩
    · rw [hstart, List.cons_append]
    · rintro rfl
      exact absurd hc (by decide)
  have hfound : reference ∈ found kind.form
      ((earlier ++ gap) ++ kind.statement inner literal ++ (after ++ rest)) :=
    mem_found_of_describes (Braced.form_mem_textForms htypes) hclosed hquoting hopening hstart
      Braced.isPlain_link.quoteFree hliteral
      (Braced.describes hkind hbrace (fun h => absurd h htypes) hliteral)
  refine ⟨kind.form, Braced.form_mem_textForms htypes, ?_⟩
  simpa only [List.append_assoc] using hfound

/-- Exactly the references of a module are found in its code, unless one of them is open. -/
theorem IsModule.mem_inCode_iff (h : IsModule lines references)
    (hclosed : ∀ other ∈ references, ¬IsOpen other) :
    reference ∈ inCode (lines.filter isCodeLine) ↔ reference ∈ references := by
  rw [inCode, List.mem_append, List.mem_flatMap, List.mem_flatMap]
  constructor
  · rintro (⟨line, hline, hmem⟩ | ⟨form, hform, hmem⟩)
    · obtain ⟨hline, hcode⟩ := List.mem_filter.mp hline
      obtain ⟨before, literal, after, hstrip, -, hliteral⟩ := exists_literal_of_mem_onLine hmem
      obtain ⟨first, last, hwhole⟩ := Text.strip_isInfix line
      have htext : line = (first ++ before) ++ literal ++ (after ++ last) := by
        rw [← hwhole, hstrip]
        simp only [List.append_assoc]
      rcases h.line_quoting hline hcode with hfree | ⟨other, hother, hquoting⟩
      · obtain ⟨hopening, -⟩ := hliteral
        rw [htext, quoteFree_append, quoteFree_append] at hfree
        exact absurd hopening (hfree.1.2 _ List.mem_cons_self)
      · rw [htext] at hquoting
        rw [hquoting.eq_of_isLiteral hliteral]
        exact hother
    · have hquoting := h.quoting
      by_cases hnone : lines.filter isCodeLine = []
      · rw [hnone, ← List.nil_append (List.flatMap _ _)] at hquoting
        rw [hnone] at hmem
        exact mem_of_mem_found hform hclosed hquoting hmem
      · rw [Text.flatMap_eq_join hnone] at hquoting
        exact mem_of_mem_found hform hclosed hquoting hmem
  · intro hmem
    obtain ⟨earlier, group, later, before, rfl, hearlier, hbefore, hgroup⟩ := h.exists_group hmem
    rcases hgroup.found with ⟨line, hline, hcode, hfound⟩ | hpiece
    · refine Or.inl ⟨line, List.mem_filter.mpr ⟨?_, hcode⟩, hfound⟩
      exact List.mem_append_right earlier (List.mem_append_left later hline)
    · obtain ⟨rest, hrest⟩ := Text.join_isPrefix ['\n'] (group.filter isCodeLine)
        (later.filter isCodeLine)
      have hne : (group ++ later).filter isCodeLine ≠ [] := by
        obtain ⟨quiet, last, rfl, -, hlast, -⟩ := hgroup.exists_last
        refine List.ne_nil_of_mem (a := last) (List.mem_filter.mpr ⟨?_, hlast⟩)
        simp
      obtain ⟨form, hform, hfound⟩ :=
        exists_mem_found_of_isPieceOf rest (fun other hother => hclosed other (hbefore other hother))
          hearlier.quoting hpiece
      rw [List.filter_append, Text.join_append _ hne, List.filter_append, ← hrest]
      exact Or.inr ⟨form, hform, hfound⟩

/-- In a module exactly the references of its statements are found, each once. References must not
be open. -/
theorem extract_module (h : IsModule (Text.lines text) references)
    (hclosed : ∀ reference ∈ references, ¬IsOpen reference) :
    (extract text).Nodup ∧ ∀ reference, reference ∈ extract text ↔ reference ∈ references := by
  refine ⟨nodup_eraseDups _, fun reference => ?_⟩
  rw [extract, List.mem_eraseDups]
  exact h.mem_inCode_iff hclosed

/-- A module with a comment, an import of names on lines of their own, a line without references
and an import for its effect. -/
def smallModule : Text :=
  "// Parts.\nimport Main, \x7b\n  alpha,\n  // Not needed: './old'.\n  beta\n".toList ++
    "\x7d from './main';\nlet n = 1;\n\nimport \"./style\"\n".toList

/-- Its two references are found. -/
theorem extract_module_small :
    IsModule (Text.lines smallModule) ["./main".toList, "./style".toList] ∧
      (∀ reference ∈ ["./main".toList, "./style".toList], ¬IsOpen reference) ∧
      (extract smallModule).Nodup ∧ ∀ reference, reference ∈ extract smallModule ↔
        reference ∈ ["./main".toList, "./style".toList] := by
  have hclosed : ∀ reference ∈ ["./main".toList, "./style".toList], ¬IsOpen reference := by
    have hbrace : ∀ reference ∈ ["./main".toList, "./style".toList], '\x7d' ∉ reference := by
      decide
    rintro _ hmem ⟨start, tail, rfl, -⟩
    exact hbrace _ hmem (List.mem_append_right start List.mem_cons_self)
  have hmain : IsGroup ("import Main, \x7b".toList ::
      ["  alpha,".toList, "  // Not needed: './old'.".toList, "  beta".toList] ++
        ["\x7d from './main';".toList]) "./main".toList := by
    have hname : IsName "Main".toList := by decide
    have hliteral : IsLiteral "./main".toList ('\'' :: "./main".toList ++ ['\'']) :=
      .mk (by decide) (by decide) (by decide) (by decide)
    have hkind : (Braced.importDefault "Main".toList).IsProper := hname
    exact .spread hkind nofun (by decide) (by decide) (by decide) hliteral (Or.inr rfl)
  have hstyle : IsGroup ["import \"./style\"".toList] "./style".toList := by
    have hliteral : IsLiteral "./style".toList ('"' :: "./style".toList ++ ['"']) :=
      .mk (by decide) (by decide) (by decide) (by decide)
    have hkind : Bare.importEffect.IsProper := trivial
    exact .single (.bare hkind hliteral (Or.inl rfl) fun _ => by decide)
  have hlines : Text.lines smallModule = "// Parts.".toList :: (("import Main, \x7b".toList ::
      ["  alpha,".toList, "  // Not needed: './old'.".toList, "  beta".toList] ++
        ["\x7d from './main';".toList]) ++ "let n = 1;".toList :: [] ::
          (["import \"./style\"".toList] ++ [])) := by decide +kernel
  have hmodule : IsModule (Text.lines smallModule) ["./main".toList, "./style".toList] := by
    rw [hlines]
    exact .silent (by decide) (.group hmain
      (.other (by decide) (.silent (by decide) (.group hstyle .nil))))
  exact ⟨hmodule, hclosed, extract_module hmodule hclosed⟩

/-- What stands between an open reference and the next one may be taken for a reference. -/
example : extract "import \x7b\nimport 'x\x7dfrom';\nimport 'y'".toList =
    ["x\x7dfrom".toList, "y".toList, ";\nimport ".toList] := by
  decide +kernel

end Finding

end SourceLoom.Reference
