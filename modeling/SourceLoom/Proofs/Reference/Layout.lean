import SourceLoom.Proofs.Distinct
import SourceLoom.Proofs.Reference.Statements

/-!
# The layout of names in braces

The names in the braces of a statement may stand on one line or on many: wherever blanks stand
after the opening brace, after a comma and before the closing brace, the reference of the statement
is found, and nothing else. Imports of types are the exception. The only form that they are a piece
of is sought on one line, so their reference is lost where a line breaks.
-/

namespace SourceLoom.Reference

open Pattern

variable {reference literal tail : Text} {names : List (Text × Text)}

/-- Names with commas between them, and after each comma and the last name its own blanks. -/
def listed : List (Text × Text) → Text
  | [] => []
  | [(name, gap)] => name ++ gap
  | (name, gap) :: next :: more => name ++ ',' :: gap ++ listed (next :: more)

/-- At least one name is listed, and what is listed are names with blanks. -/
def IsListing (names : List (Text × Text)) : Prop :=
  names ≠ [] ∧ ∀ item ∈ names, IsName item.1 ∧ IsBlank item.2

/-- Neither a quote nor a closing brace is in a list of names. -/
theorem IsListing.quoteFree (h : IsListing names) :
    QuoteFree (listed names) ∧ '\x7d' ∉ listed names := by
  obtain ⟨hne, hall⟩ := h
  induction names with
  | nil => exact absurd rfl hne
  | cons item names ih =>
    obtain ⟨name, gap⟩ := item
    obtain ⟨⟨hname, hgap⟩, hrest⟩ := List.forall_mem_cons.mp hall
    have hplain := hname.isPlain
    cases names with
    | nil =>
      simp only [listed, quoteFree_append, List.mem_append, not_or]
      exact ⟨⟨hplain.quoteFree, hgap.quoteFree⟩, hplain.not_mem_brace, hgap.not_mem_brace⟩
    | cons next names =>
      obtain ⟨hfree, hbrace⟩ := ih (List.cons_ne_nil _ _) hrest
      simp only [listed, quoteFree_append, quoteFree_cons, List.mem_append, List.mem_cons, not_or,
        List.append_assoc, List.cons_append]
      exact ⟨⟨hplain.quoteFree, by decide, hgap.quoteFree, hfree⟩, hplain.not_mem_brace,
        by decide, hgap.not_mem_brace, hbrace⟩

/-- The code of a list of names before more code is the list with other blanks. -/
theorem exists_codeOf_listed (hnames : IsListing names) (htail : StartsCode tail)
    (hbreak : ∀ c ∈ tail, Text.isLineBreak c = false) :
    StartsCode (listed names ++ tail) ∧ ∃ inner, QuoteFree inner ∧ '\x7d' ∉ inner ∧
      codeOf (listed names ++ tail) = inner ++ tail := by
  obtain ⟨hne, hall⟩ := hnames
  induction names with
  | nil => exact absurd rfl hne
  | cons item names ih =>
    obtain ⟨name, gap⟩ := item
    obtain ⟨⟨hname, hgap⟩, hrest⟩ := List.forall_mem_cons.mp hall
    have hplain : QuoteFree name ∧ '\x7d' ∉ name :=
      ⟨hname.isPlain.quoteFree, hname.isPlain.not_mem_brace⟩
    cases names with
    | nil =>
      have hcode : codeOf tail = tail := by
        rw [codeOf, codeLines_of_no_break htail hbreak]
        rfl
      obtain ⟨settled, hsettled, hwhole⟩ :=
        exists_codeOf_append hname.startsCode hname.no_break hgap htail
      refine ⟨(hname.startsCode.append gap).append tail, name ++ settled, ?_, ?_, ?_⟩
      · exact quoteFree_append.mpr ⟨hplain.1, hsettled.quoteFree⟩
      · exact List.mem_append.not.mpr (not_or.mpr ⟨hplain.2, hsettled.not_mem_brace⟩)
      · rw [listed, hwhole, hcode]
    | cons next names =>
      obtain ⟨hstart, inner, hfree, hbrace, hcode⟩ := ih (List.cons_ne_nil _ _) hrest
      have hfirst : StartsCode (name ++ [',']) := hname.startsCode.append _
      have hfirstBreak : ∀ c ∈ name ++ [','], Text.isLineBreak c = false :=
        List.forall_mem_append.mpr ⟨hname.no_break, List.forall_mem_singleton.mpr (by decide)⟩
      obtain ⟨settled, hsettled, hwhole⟩ := exists_codeOf_append hfirst hfirstBreak hgap hstart
      have htext : listed ((name, gap) :: next :: names) ++ tail =
          name ++ [','] ++ gap ++ (listed (next :: names) ++ tail) := by
        simp only [listed, List.append_assoc, List.cons_append, List.nil_append]
      rw [htext]
      refine ⟨(hfirst.append gap).append _, name ++ [','] ++ settled ++ inner, ?_, ?_, ?_⟩
      · simp only [quoteFree_append]
        exact ⟨⟨⟨hplain.1, by decide⟩, hsettled.quoteFree⟩, hfree⟩
      · simp only [List.mem_append, not_or]
        exact ⟨⟨⟨hplain.2, by decide⟩, hsettled.not_mem_brace⟩, hbrace⟩
      · rw [hwhole, hcode]
        simp only [List.append_assoc]

section Statement

variable {kind : Braced} {gap last : Text}

/-- No line break is in what stands after the names. -/
theorem no_break_after (hliteral : IsLiteral reference literal)
    (hbreak : ∀ c ∈ reference, Text.isLineBreak c = false) (hlast : IsEnd last) :
    ∀ c ∈ '\x7d' :: kind.link ++ literal ++ kind.close ++ last, Text.isLineBreak c = false := by
  have hlink : ∀ c ∈ '\x7d' :: kind.link, Text.isLineBreak c = false :=
    List.forall_mem_cons.mpr ⟨by decide, Braced.isPlain_link.no_break⟩
  simp only [List.forall_mem_append]
  exact ⟨⟨⟨hlink, hliteral.no_break hbreak⟩, Braced.isPlain_close.no_break⟩,
    hlast.isPlain.no_break⟩

/-- The code of a statement is the statement with other blanks in its braces. -/
theorem exists_codeOf_statement (hkind : kind.IsProper) (hgap : IsBlank gap)
    (hnames : IsListing names) (hliteral : IsLiteral reference literal)
    (hbreak : ∀ c ∈ reference, Text.isLineBreak c = false) (hlast : IsEnd last) :
    ∃ inner, QuoteFree inner ∧ '\x7d' ∉ inner ∧
      codeOf (kind.statement (gap ++ listed names) literal ++ last) =
        kind.statement inner literal ++ last := by
  obtain ⟨hplain, hstart⟩ := Braced.isPlain_start hkind
  have hopening : StartsCode (kind.start ++ ['\x7b']) := hstart.append _
  have hopeningBreak : ∀ c ∈ kind.start ++ ['\x7b'], Text.isLineBreak c = false :=
    List.forall_mem_append.mpr ⟨hplain.no_break, List.forall_mem_singleton.mpr (by decide)⟩
  have hclosing : StartsCode ('\x7d' :: kind.link ++ literal ++ kind.close ++ last) :=
    ⟨'\x7d', _, rfl, by decide, by decide, by decide⟩
  obtain ⟨hlistStart, inner, hfree, hbrace, hcode⟩ :=
    exists_codeOf_listed hnames hclosing (no_break_after hliteral hbreak hlast)
  obtain ⟨settled, hsettled, hwhole⟩ :=
    exists_codeOf_append hopening hopeningBreak hgap hlistStart
  refine ⟨settled ++ inner, ?_, ?_, ?_⟩
  · exact quoteFree_append.mpr ⟨hsettled.quoteFree, hfree⟩
  · exact List.mem_append.not.mpr (not_or.mpr ⟨hsettled.not_mem_brace, hbrace⟩)
  · rw [hcode] at hwhole
    simpa only [Braced.statement, List.append_assoc, List.cons_append, List.nil_append] using hwhole

/-- Only the reference of a statement is found in it. -/
theorem eq_of_mem_inCode {text found : Text} (hquoting : Quoting [reference] (codeOf text))
    (h : found ∈ inCode (codeLines text)) : found = reference := by
  obtain ⟨before, literal, after, hcode, -, hliteral⟩ := exists_literal_of_mem_inCode h
  rw [codeOf, hcode] at hquoting
  exact hquoting.eq_of_isLiteral hliteral

/-- A statement neither begins nor ends with a blank. -/
theorem strip_statement (hkind : kind.IsProper) {inner : Text}
    (hliteral : IsLiteral reference literal) (hlast : IsEnd last) :
    Text.strip (kind.statement inner literal ++ last) = kind.statement inner literal ++ last := by
  obtain ⟨c, rest, hstart, hc, -⟩ := (Braced.isPlain_start hkind).2
  have hfirst : kind.statement inner literal ++ last = c :: (rest ++
      ('\x7b' :: inner ++ '\x7d' :: kind.link ++ literal ++ kind.close ++ last)) := by
    simp only [Braced.statement, hstart, List.append_assoc, List.cons_append]
  have hclose : kind.close = [] ∨ kind.close = [')'] := by
    cases kind with
    | bound keyword => exact Or.inr rfl
    | _ => exact Or.inl rfl
  have hend : ∃ kept d, kind.statement inner literal ++ last = kept ++ [d] ∧
      Text.isBlank d = false := by
    rcases hlast with rfl | rfl
    · rw [List.append_nil, Braced.statement]
      rcases hclose with hclose | hclose
      · obtain @⟨opening, closing, -, -, -, hclosing⟩ := hliteral
        refine ⟨kind.start ++ '\x7b' :: inner ++ '\x7d' :: kind.link ++ opening :: reference, closing,
          ?_, not_isBlank_of_mem_quotes hclosing⟩
        rw [hclose, List.append_nil]
        simp only [List.append_assoc]
      · rw [hclose]
        exact ⟨_, ')', rfl, by decide⟩
    · exact ⟨_, ';', rfl, by decide⟩
  obtain ⟨kept, d, hd, hblank⟩ := hend
  rw [hfirst] at hd ⊢
  exact Text.strip_eq_self hc hblank hd

/-- A statement is one line if no line breaks in its braces. -/
theorem codeLines_statement (hkind : kind.IsProper) {inner : Text}
    (hinner : ∀ c ∈ inner, Text.isLineBreak c = false) (hliteral : IsLiteral reference literal)
    (hbreak : ∀ c ∈ reference, Text.isLineBreak c = false) (hlast : IsEnd last) :
    codeLines (kind.statement inner literal ++ last) = [kind.statement inner literal ++ last] := by
  obtain ⟨hplain, hstart⟩ := Braced.isPlain_start hkind
  have htext : kind.statement inner literal ++ last = kind.start ++ ('\x7b' :: inner ++
      ('\x7d' :: kind.link ++ literal ++ kind.close ++ last)) := by
    simp only [Braced.statement, List.append_assoc, List.cons_append]
  rw [htext]
  refine codeLines_of_no_break (hstart.append _) ?_
  have hbraces : ∀ c ∈ '\x7b' :: inner, Text.isLineBreak c = false :=
    List.forall_mem_cons.mpr ⟨by decide, hinner⟩
  exact List.forall_mem_append.mpr ⟨hplain.no_break,
    List.forall_mem_append.mpr ⟨hbraces, no_break_after hliteral hbreak hlast⟩⟩

/-- However the names in the braces of a statement are laid out, its reference is found, and
nothing else; names of imported types must stand on one line. -/
theorem extract_statement (hkind : kind.IsProper) (hgap : IsBlank gap) (hnames : IsListing names)
    (hliteral : IsLiteral reference literal)
    (hbreak : ∀ c ∈ reference, Text.isLineBreak c = false) (hlast : IsEnd last)
    (htypes : kind = .importTypes → ∀ c ∈ gap ++ listed names, Text.isLineBreak c = false) :
    extract (kind.statement (gap ++ listed names) literal ++ last) = [reference] := by
  obtain ⟨inner, hfree, hbrace, hcode⟩ :=
    exists_codeOf_statement hkind hgap hnames hliteral hbreak hlast
  have hfound : reference ∈
      inCode (codeLines (kind.statement (gap ++ listed names) literal ++ last)) := by
    rw [inCode, List.mem_append, List.mem_flatMap, List.mem_flatMap]
    by_cases himport : kind = .importTypes
    · have hinner := htypes himport
      have hquoteFree := quoteFree_append.mpr ⟨hgap.quoteFree, hnames.quoteFree.1⟩
      have hnoBrace : '\x7d' ∉ gap ++ listed names :=
        List.mem_append.not.mpr (not_or.mpr ⟨hgap.not_mem_brace, hnames.quoteFree.2⟩)
      have hnoFeed : '\n' ∉ gap ++ listed names := fun hmem => absurd (hinner _ hmem) (by decide)
      have hform : kind.form ∈ lineForms := by
        rw [himport]
        decide
      have hmem := Braced.mem_found hkind hquoteFree hnoBrace (fun _ => hnoFeed) hliteral
        hlast.isPlain.quoteFree
      refine Or.inl ⟨kind.statement (gap ++ listed names) literal ++ last, ?_, ?_⟩
      · rw [codeLines_statement hkind hinner hliteral hbreak hlast]
        exact List.mem_singleton_self _
      · rw [strip_statement hkind hliteral hlast, onLine, List.mem_append, List.mem_flatMap]
        exact Or.inl ⟨kind.form, hform, hmem⟩
    · have hmem := Braced.mem_found hkind hfree hbrace (fun h => absurd h himport) hliteral
        hlast.isPlain.quoteFree
      rw [← hcode] at hmem
      exact Or.inr ⟨kind.form, Braced.form_mem_textForms himport, hmem⟩
  have hquoting := Braced.quoting hkind hfree hliteral hlast.isPlain.quoteFree
  rw [← hcode] at hquoting
  exact eraseDups_eq_singleton hfound fun other => eq_of_mem_inCode hquoting

/-- A default and two names, each of them on a line of its own, are imported from a reference that
is found. -/
theorem extract_statement_lines :
    IsBlank "\n  ".toList ∧
      IsListing [("alpha".toList, "\n  ".toList), ("beta".toList, "\r\n".toList)] ∧
      extract ((Braced.importDefault "Main".toList).statement ("\n  ".toList ++
        listed [("alpha".toList, "\n  ".toList), ("beta".toList, "\r\n".toList)])
        ('"' :: "./multi".toList ++ ['"']) ++ [';']) = ["./multi".toList] := by
  have hgap : IsBlank "\n  ".toList := by decide
  have hnames : IsListing [("alpha".toList, "\n  ".toList), ("beta".toList, "\r\n".toList)] :=
    ⟨List.cons_ne_nil _ _, by decide⟩
  have hkind : (Braced.importDefault "Main".toList).IsProper :=
    (by decide : IsName "Main".toList)
  have hliteral : IsLiteral "./multi".toList ('"' :: "./multi".toList ++ ['"']) :=
    .mk (by decide) (by decide) (by decide) (by decide)
  exact ⟨hgap, hnames,
    extract_statement hkind hgap hnames hliteral (by decide) (Or.inr rfl) nofun⟩

/-- A line that breaks in the braces of an import of types hides the reference. -/
theorem exists_reference_hidden :
    ∃ gap names reference literal, IsBlank gap ∧ IsListing names ∧ IsLiteral reference literal ∧
      (∀ c ∈ reference, Text.isLineBreak c = false) ∧
      extract (Braced.importTypes.statement (gap ++ listed names) literal ++ [';']) = [] := by
  refine ⟨"\n  ".toList, [("a".toList, "\n".toList)], "./x".toList, '\'' :: "./x".toList ++ ['\''],
    by decide, ⟨List.cons_ne_nil _ _, by decide⟩, ?_, by decide, by decide +kernel⟩
  exact .mk (by decide) (by decide) (by decide) (by decide)

end Statement

end SourceLoom.Reference
