import SourceLoom.Proofs.Path.Shown
import SourceLoom.Proofs.Reference.Layout
import SourceLoom.Proofs.Reference.Overlap

/-!
# What a reported reference is

A reference that is reported stands in the code between two quotes, and a lead stands before the
first of them: the word `from` or `import`, or the beginning of a call. The quotes need not be the
same, and so a reference may end at the first quote of any kind in a longer literal. It may also
begin where another literal ends, if that ends in a lead.

Where neither can happen, the references are literals of the code: where each literal is closed by
the quote that opens it, with no other quote in it, and none ends in a lead. In particular an import
reports its literal just when that has a character and no quote.
-/

namespace SourceLoom.Reference

variable {text lead content reference : Text} {literals : List (Char × Text)}

/-- No quote is in a lead, but the letter `r` is. -/
theorem IsLead.quoteFree (h : IsLead lead) : QuoteFree lead ∧ 'r' ∈ lead := by
  have hloaders : ∀ loader ∈ ["require", "import"],
      QuoteFree loader.toList ∧ 'r' ∈ loader.toList := by decide
  cases h with
  | ofFrom hfirst =>
    exact ⟨quoteFree_append.mpr ⟨by decide, hfirst.quoteFree⟩,
      List.mem_append_left _ (by decide)⟩
  | ofImport hfirst _ =>
    exact ⟨quoteFree_append.mpr ⟨by decide, hfirst.quoteFree⟩,
      List.mem_append_left _ (by decide)⟩
  | ofCall hloader hfirst hsecond =>
    obtain ⟨hfree, hmem⟩ := hloaders _ hloader
    refine ⟨?_, List.mem_append_left _ hmem⟩
    simp only [quoteFree_append, quoteFree_cons]
    exact ⟨hfree, hfirst.quoteFree, by decide, hsecond.quoteFree⟩

/-- A text without the letter `r` does not end in a lead. -/
theorem not_endsInLead (h : 'r' ∉ text) : ¬EndsInLead text := by
  rintro ⟨lead, hsuffix, hlead⟩
  exact h (hsuffix.subset hlead.quoteFree.2)

/-- The only line breaks in code are line feeds. -/
theorem eq_lineFeed_of_mem_codeOf {c : Char} (hc : c ∈ codeOf text)
    (hbreak : Text.isLineBreak c = true) : c = '\n' := by
  rcases Text.mem_join hc with hfeed | ⟨line, hline, hc⟩
  · exact List.mem_singleton.mp hfeed
  · have hnone := Text.not_isLineBreak_of_mem_lines (List.mem_filter.mp hline).1 c hc
    rw [hbreak] at hnone
    cases hnone

/-- The quotes in a text enclose these contents, one after the other, and each is closed by the
quote that opens it. -/
inductive Paired : List (Char × Text) → Text → Prop
  /-- Without quotes nothing is enclosed. -/
  | nil {text : Text} : QuoteFree text → Paired [] text
  /-- A content is enclosed, and after it others. -/
  | cons {literals : List (Char × Text)} {quote : Char} {text content rest : Text} :
      QuoteFree text → quote ∈ quotes → QuoteFree content → Paired literals rest →
        Paired ((quote, content) :: literals) (text ++ quote :: content ++ quote :: rest)

/-- What the quotes enclose is quoted. -/
theorem Paired.quoting (h : Paired literals text) : Quoting (literals.map (·.2)) text := by
  induction h with
  | nil hfree => exact .nil hfree
  | cons hfree hquote hcontent _ ih => exact .cons hfree hquote hcontent hquote ih

/-- What the quotes enclose stands in the text with its quotes. -/
theorem Paired.isInfix (h : Paired literals text) {quote : Char}
    (hmem : (quote, content) ∈ literals) : quote :: content ++ [quote] <:+: text := by
  induction h with
  | nil => cases hmem
  | @cons literals other text first rest _ _ _ _ ih =>
    rcases List.mem_cons.mp hmem with heq | hmem
    · cases heq
      exact ⟨text, rest, by simp⟩
    · exact (ih hmem).trans ⟨text ++ other :: first ++ [other], [], by simp⟩

/-- A reference between quotes after a lead is a content that the quotes enclose, if none of these
ends in a lead. -/
theorem Paired.mem_of_isLiteral {before literal after : Text}
    (h : Paired literals (before ++ literal ++ after)) (hliteral : IsLiteral reference literal)
    (hlead : EndsInLead before) (hclosed : ∀ literal ∈ literals, ¬EndsInLead literal.2) :
    ∃ quote, (quote, reference) ∈ literals := by
  rcases h.quoting.of_isLiteral_mem hliteral with hmem | ⟨earlier, last, next, later, hlist, hopen⟩
  · obtain ⟨⟨quote, content⟩, hliterals, rfl⟩ := List.mem_map.mp hmem
    exact ⟨quote, hliterals⟩
  · -- The quote that should open the reference closes an earlier content, which ends in the lead.
    obtain ⟨start, opening, hopening, hbefore⟩ := hopen
    obtain ⟨lead, ⟨front, rfl⟩, hlead⟩ := hlead
    obtain ⟨more, -, rfl⟩ := exists_append_quote hlead.quoteFree.1 hopening hbefore
    have hmem : more ++ lead ∈ literals.map (·.2) := by
      rw [hlist]
      exact List.mem_append_right _ List.mem_cons_self
    obtain ⟨literal, hliterals, hcontent⟩ := List.mem_map.mp hmem
    refine absurd ⟨lead, ?_, hlead⟩ (hclosed literal hliterals)
    rw [hcontent]
    exact List.suffix_append more lead

/-- A reference stands in code between two quotes, after a lead. -/
def StandsQuoted (code reference : Text) : Prop :=
  ∃ before opening closing after, code = before ++ opening :: reference ++ closing :: after ∧
    EndsInLead before ∧ opening ∈ quotes ∧ closing ∈ quotes

/-- Only references that stand in the code between two quotes are reported. They are not empty, no
quote is in them, and no line break but line feeds. -/
theorem standsQuoted_of_mem_extract (h : reference ∈ extract text) :
    StandsQuoted (codeOf text) reference ∧ reference ≠ [] ∧ QuoteFree reference ∧
      ∀ c ∈ reference, Text.isLineBreak c = true → c = '\n' := by
  have hfound : reference ∈ inCode (codeLines text) := List.mem_eraseDups.mp h
  obtain ⟨before, literal, after, hcode, hlead, hliteral⟩ := exists_literal_of_mem_inCode hfound
  obtain @⟨opening, closing, hopening, hne, hfree, hclosing⟩ := hliteral
  have hwhole : codeOf text = before ++ opening :: reference ++ closing :: after := by
    rw [codeOf, hcode]
    simp only [List.append_assoc, List.cons_append, List.nil_append]
  refine ⟨⟨before, opening, closing, after, hwhole, hlead, hopening, hclosing⟩, hne, hfree, ?_⟩
  intro c hc hbreak
  have hmem : c ∈ codeOf text := by
    rw [hwhole]
    exact List.mem_append_left _ (List.mem_append_right _ (List.mem_cons_of_mem _ hc))
  exact eq_lineFeed_of_mem_codeOf hmem hbreak

section Statements

variable {kind : Bare} {literal : Text}

/-- A statement without braces neither begins nor ends with a blank. -/
theorem Bare.strip_statement (h : kind.IsProper) (hliteral : IsLiteral reference literal) :
    Text.strip (kind.statement literal) = kind.statement literal := by
  obtain ⟨c, rest, hstart, hc, -⟩ := (Bare.isPlain_start h).2
  have hfirst : kind.statement literal = c :: (rest ++ literal ++ kind.close) := by
    simp only [Bare.statement, hstart, List.cons_append, List.append_assoc]
  have hclose : kind.close = [] ∨ kind.close = [')'] := by
    cases kind with
    | bound | boundFirst | load | importCall => exact Or.inr rfl
    | _ => exact Or.inl rfl
  have hend : ∃ kept last, kind.statement literal = kept ++ [last] ∧
      Text.isBlank last = false := by
    rw [Bare.statement]
    rcases hclose with hclose | hclose
    · obtain @⟨opening, closing, -, -, -, hclosing⟩ := hliteral
      refine ⟨kind.start ++ opening :: reference, closing, ?_, not_isBlank_of_mem_quotes hclosing⟩
      rw [hclose, List.append_nil, List.append_assoc]
    · rw [hclose]
      exact ⟨_, ')', rfl, by decide⟩
  obtain ⟨kept, last, hlast, hblank⟩ := hend
  rw [hfirst] at hlast ⊢
  exact Text.strip_eq_self hc hblank hlast

/-- A statement without braces reports its reference, if no line breaks in it. -/
theorem Bare.mem_extract (h : kind.IsProper) (hliteral : IsLiteral reference literal)
    (hbreak : ∀ c ∈ reference, Text.isLineBreak c = false)
    (heffect : kind = .importEffect → ¬" from ".toList <:+: reference) :
    reference ∈ extract (kind.statement literal) := by
  obtain ⟨hplain, hcode⟩ := Bare.isPlain_start h
  have hnone : ∀ c ∈ kind.statement literal, Text.isLineBreak c = false := by
    refine List.forall_mem_append.mpr ⟨?_, Bare.isPlain_close.no_break⟩
    exact List.forall_mem_append.mpr ⟨hplain.no_break, hliteral.no_break hbreak⟩
  have hlines : codeLines (kind.statement literal) = [kind.statement literal] :=
    codeLines_of_no_break ((hcode.append _).append _) hnone
  have hfound := Bare.mem_onLine h hliteral (Or.inl rfl) heffect
  rw [List.append_nil] at hfound
  rw [extract, List.mem_eraseDups, hlines, inCode, List.mem_append, List.mem_flatMap]
  refine Or.inl ⟨_, List.mem_singleton_self _, ?_⟩
  rwa [Bare.strip_statement h hliteral]

end Statements

/-- A reported reference stands in the code between two quotes, after a lead; it is not empty, no
quote is in it, and no line break but line feeds. It is one of the literals of the code, if each of
these is closed by the quote that opens it, and none has a quote in it or ends in a lead. An import
of a default reports what stands between its quotes just when that is not empty and has no quote. -/
theorem extract_enclosed (text : Text) :
    (∀ reference ∈ extract text,
      StandsQuoted (codeOf text) reference ∧ reference ≠ [] ∧ QuoteFree reference ∧
        ∀ c ∈ reference, Text.isLineBreak c = true → c = '\n') ∧
    (∀ literals, Paired literals (codeOf text) →
      (∀ literal ∈ literals, ¬EndsInLead literal.2) → ∀ reference ∈ extract text,
        ∃ quote, (quote, reference) ∈ literals ∧
          quote :: reference ++ [quote] <:+: codeOf text) ∧
    ∀ name reference, IsName name → (∀ c ∈ reference, Text.isLineBreak c = false) →
      text = "import ".toList ++ name ++ " from ".toList ++ ('"' :: reference ++ ['"']) →
        (reference ∈ extract text ↔ reference ≠ [] ∧ QuoteFree reference) := by
  refine ⟨fun reference => standsQuoted_of_mem_extract, ?_, ?_⟩
  · intro literals hpaired hclosed reference h
    obtain ⟨before, literal, after, hcode, hlead, hliteral⟩ :=
      exists_literal_of_mem_inCode (List.mem_eraseDups.mp h)
    have hsplit : Paired literals (before ++ literal ++ after) := by
      rw [← hcode]
      exact hpaired
    obtain ⟨quote, hmem⟩ := hsplit.mem_of_isLiteral hliteral hlead hclosed
    exact ⟨quote, hmem, hpaired.isInfix hmem⟩
  · intro name reference hname hbreak htext
    constructor
    · intro h
      obtain ⟨-, hne, hfree, -⟩ := standsQuoted_of_mem_extract h
      exact ⟨hne, hfree⟩
    · rintro ⟨hne, hfree⟩
      have hliteral : IsLiteral reference ('"' :: reference ++ ['"']) :=
        .mk (by decide) hne hfree (by decide)
      have hkind : (Bare.importDefault name).IsProper := hname
      have hstatement : (Bare.importDefault name).statement ('"' :: reference ++ ['"']) = text :=
        (List.append_nil _).trans htext.symm
      rw [← hstatement]
      exact Bare.mem_extract hkind hliteral hbreak nofun

/-- Two statements with different quotes. -/
def twoQuotes : Text := "import a from \"./a\"\nconst b = require('./b')".toList

/-- What the second of them requires is one of the two literals. -/
theorem extract_enclosed_twoQuotes :
    "./b".toList ∈ extract twoQuotes ∧ "'./b'".toList <:+: codeOf twoQuotes := by
  have hreported : "./b".toList ∈ extract twoQuotes := by decide +kernel
  have hpaired : Paired [('"', "./a".toList), ('\'', "./b".toList)]
      ("import a from ".toList ++ '"' :: "./a".toList ++ '"' ::
        ("\nconst b = require(".toList ++ '\'' :: "./b".toList ++ '\'' :: ")".toList)) :=
    .cons (by decide) (by decide) (by decide)
      (.cons (by decide) (by decide) (by decide) (.nil (by decide)))
  have hcode : codeOf twoQuotes = "import a from ".toList ++ '"' :: "./a".toList ++ '"' ::
      ("\nconst b = require(".toList ++ '\'' :: "./b".toList ++ '\'' :: ")".toList) := by
    decide +kernel
  rw [← hcode] at hpaired
  have hclosed : ∀ literal ∈ [('"', "./a".toList), ('\'', "./b".toList)],
      ¬EndsInLead literal.2 := by
    have hletter : ∀ literal ∈ [('"', "./a".toList), ('\'', "./b".toList)],
        'r' ∉ literal.2 := by decide
    exact fun literal hliteral => not_endsInLead (hletter literal hliteral)
  obtain ⟨quote, hmem, hinfix⟩ :=
    (extract_enclosed twoQuotes).2.1 _ hpaired hclosed "./b".toList hreported
  have hquote : quote = '\'' := by
    simp only [List.mem_cons, List.not_mem_nil, Prod.mk.injEq, or_false] at hmem
    rcases hmem with ⟨-, hsame⟩ | ⟨hquote, -⟩
    · exact absurd hsame (by decide)
    · exact hquote
  rw [hquote] at hinfix
  exact ⟨hreported, hinfix⟩

/-- A reported reference may end at a quote in a literal that another quote closes. -/
theorem exists_reference_cut : ¬ ∀ text, ∀ reference ∈ extract text,
    (∃ quote ∈ quotes, quote :: reference ++ [quote] <:+: codeOf text) ∧
      ∀ c ∈ reference, Text.isLineBreak c = false := by
  intro hall
  have hcut : "./it".toList ∈ extract "import x from \"./it's\"".toList := by decide +kernel
  obtain ⟨⟨quote, hquote, hinfix⟩, -⟩ := hall _ _ hcut
  have hnone : ∀ quote ∈ quotes, Text.includes (quote :: "./it".toList ++ [quote])
      (codeOf "import x from \"./it's\"".toList) = false := by decide +kernel
  rw [← Text.includes_iff, hnone quote hquote] at hinfix
  cases hinfix

end SourceLoom.Reference
