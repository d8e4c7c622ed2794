import SourceLoom.Proofs.Reference.Enclosed
import SourceLoom.Proofs.Reference.Identifiers

/-!
# Lines with a single literal

On a line of code in which only one reference is quoted, a form reports it if a piece of the form
stands in the line, and if it is reported, then what stands before its literal opens it. The words
of the line may have any blanks between them: a form that wants a gap between two words does not
tell one gap from another.
-/

namespace SourceLoom.Reference

open Pattern

open Text (IsSpace IsLaidOut)

variable {reference literal line before after name inner : Text}

/-- Where only one reference is quoted, the quotes of a literal are those around it. -/
theorem eq_before_of_isLiteral {other rest found : Text} (hbefore : QuoteFree before)
    (hafter : QuoteFree after) (hliteral : IsLiteral reference literal)
    {piece : Text} (hpiece : IsLiteral found piece)
    (h : other ++ (piece ++ rest) = before ++ (literal ++ after)) : other = before := by
  have hnone {text : Text} : QuoteFree text ↔ text.countP (· ∈ quotes) = 0 := by
    rw [List.countP_eq_zero]
    simp [QuoteFree]
  have htwo {reference literal : Text} (h : IsLiteral reference literal) :
      literal.countP (· ∈ quotes) = 2 := by
    obtain ⟨hopening, -, hfree, hclosing⟩ := h
    rw [List.cons_append, List.countP_cons, List.countP_append, hnone.mp hfree]
    simp [hopening, hclosing]
  have hcount := congrArg (List.countP (· ∈ quotes)) h
  rw [List.countP_append, List.countP_append, List.countP_append, List.countP_append,
    htwo hliteral, htwo hpiece, hnone.mp hbefore, hnone.mp hafter] at hcount
  have hother : QuoteFree other := hnone.mpr (by omega)
  obtain @⟨c, _, hc, -, -, -⟩ := hpiece
  obtain @⟨d, _, hd, -, -, -⟩ := hliteral
  simp only [List.cons_append] at h
  exact (eq_of_first_quote hother hbefore hc hd h).1

/-- A line of code, without blanks at its ends, in which a single reference is quoted. -/
structure IsSole (reference line : Text) : Prop where
  /-- Only the reference is quoted. -/
  quoting : Quoting [reference] line
  /-- The line is searched as a whole. -/
  codeLines_eq : codeLines line = [line]
  /-- No blanks are at its ends. -/
  strip_eq : Text.strip line = line

section Layouts

/-- Blanks on a line are a gap. -/
theorem describes_gap_of_isSpace {gap : Text} (h : IsSpace gap) :
    Reference.gap.Describes gap [] :=
  describes_gap_iff.mpr ⟨rfl, h.blank, h.ne_nil⟩

/-- A literal alone on a line is a piece of the place of a quoted reference. -/
theorem describes_alone (hliteral : IsLiteral reference literal) ⦃text : Text⦄
    (h : IsLaidOut [literal] text) : quotedReference.Describes text [(1, reference)] := by
  obtain rfl := h.eq_of_single
  exact describes_quotedReference hliteral

/-- A word and further words with blanks between them are a piece of a pattern, a gap and another
pattern. -/
theorem describes_next {p q : Pattern} {memory : Memory} {word next : Text} {words : List Text}
    (hword : p.Describes word [])
    (hwords : ∀ ⦃text : Text⦄, IsLaidOut (next :: words) text → q.Describes text memory)
    ⦃text : Text⦄ (h : IsLaidOut (word :: next :: words) text) :
    (seq p (seq gap q)).Describes text memory := by
  obtain ⟨space, rest, rfl, hspace, hrest⟩ := h.exists_of_cons
  exact hword.then ((describes_gap_of_isSpace hspace).then (hwords hrest))

/-- The word `from` and a literal are a piece of their place. -/
theorem describes_fromReference (hliteral : IsLiteral reference literal) ⦃text : Text⦄
    (h : IsLaidOut ["from".toList, literal] text) : fromReference.Describes text [(1, reference)] :=
  describes_next (describes_word "from") (describes_alone hliteral) h

/-- A name before a comma and an identifier in braces are bindings. -/
theorem exists_describes_names (hname : IsName name) (hinner : IsIdentifier inner) {text : Text}
    (h : IsLaidOut [name ++ [','], ['\x7b'], inner, ['\x7d']] text) :
    ∃ first more, text = first ++ more ∧ binding.Describes first [] ∧
      (many (sequence [blanks, char (.one ','), blanks, binding])).Describes more [] := by
  obtain ⟨first, _, rfl, hfirst, h₁⟩ := h.exists_of_cons
  obtain ⟨second, _, rfl, hsecond, h₂⟩ := h₁.exists_of_cons
  obtain ⟨third, _, rfl, hthird, h₃⟩ := h₂.exists_of_cons
  obtain rfl := h₃.eq_of_single
  have hbrace : '\x7d' ∉ second ++ (inner ++ third) := by
    simp only [List.mem_append, not_or]
    exact ⟨fun hmem => absurd (hsecond.blank _ hmem) (by decide),
      hinner.not_mem (by decide) (by decide),
      fun hmem => absurd (hthird.blank _ hmem) (by decide)⟩
  have hmore : (sequence [blanks, char (.one ','), blanks, binding]).Describes
      ([] ++ ([','] ++ (first ++ ('\x7b' :: (second ++ (inner ++ third)) ++ ['\x7d'])))) [] :=
    describes_blanks_nil.then ((describes_one ',').then
      ((describes_blanks_iff.mpr ⟨rfl, hfirst.blank⟩).then (describes_braces hbrace).left))
  refine ⟨name, _, ?_, describes_binding_name hname, hmore.many⟩
  simp only [List.append_assoc, List.cons_append, List.nil_append]

end Layouts

namespace IsSole

/-- The reference is reported if a form on one line has a way from somewhere in the line. -/
theorem mem_extract_of_ways (h : IsSole reference line) {form : Pattern} (hform : form ∈ lineForms)
    {place : Cursor} (hplace : (Cursor.start line).Reads before [] place) (hne : place.after ≠ [])
    (hways : ways form place ≠ []) : reference ∈ extract line := by
  have hmem : form ∈ effectForm :: (lineForms ++ textForms) :=
    List.mem_cons_of_mem _ (List.mem_append_left _ hform)
  have hfound := mem_found_of_ways hmem hplace hne hways h.quoting
  rw [extract, List.mem_eraseDups, h.codeLines_eq, inCode, List.mem_append, List.mem_flatMap]
  refine Or.inl ⟨line, List.mem_singleton_self line, ?_⟩
  rw [h.strip_eq, onLine, List.mem_append, List.mem_flatMap]
  exact Or.inl ⟨form, hform, hfound⟩

/-- The reference is reported if a piece of a form on one line stands in the line. -/
theorem mem_extract_of_describes (h : IsSole reference line) {form : Pattern}
    (hform : form ∈ lineForms) (hregular : form.isRegular = true) {piece rest : Text}
    {memory : Memory} (hline : line = before ++ (piece ++ rest))
    (hpiece : form.Describes piece memory) (hne : piece ≠ []) : reference ∈ extract line := by
  have hplace : (Cursor.start line).Reads before []
      ⟨before.reverse, piece ++ rest, (piece ++ rest).length, rfl, []⟩ :=
    ⟨hline, (List.append_nil _).symm, rfl⟩
  refine h.mem_extract_of_ways hform hplace ?_ (ways_ne_nil hregular hpiece rfl)
  simp [hne]

/-- The reference is reported if the line is a piece of a form on one line. -/
theorem mem_extract_of_piece (h : IsSole reference line) {form : Pattern}
    (hform : form ∈ lineForms) (hregular : form.isRegular = true) {piece : Text} {memory : Memory}
    (hline : line = piece) (hpiece : form.Describes piece memory) (hne : piece ≠ []) :
    reference ∈ extract line := by
  have hsplit : line = [] ++ (piece ++ []) := by rw [hline, List.append_nil, List.nil_append]
  exact h.mem_extract_of_describes hform hregular hsplit hpiece hne

/-- If the reference is reported, what stands before its literal opens it. -/
theorem opens (h : IsSole reference line) (hline : line = before ++ (literal ++ after))
    (hbefore : QuoteFree before) (hafter : QuoteFree after)
    (hliteral : IsLiteral reference literal) (hmem : reference ∈ extract line) : Opens before := by
  have hform : ∃ form ∈ effectForm :: (lineForms ++ textForms), reference ∈ found form line := by
    rw [extract, List.mem_eraseDups, h.codeLines_eq, inCode, List.mem_append, List.mem_flatMap,
      List.mem_flatMap] at hmem
    rcases hmem with ⟨single, hsingle, hmem⟩ | ⟨form, hform, hmem⟩
    · rw [List.mem_singleton.mp hsingle, h.strip_eq, onLine, List.mem_append,
        List.mem_flatMap] at hmem
      rcases hmem with ⟨form, hform, hmem⟩ | hmem
      · exact ⟨form, List.mem_cons_of_mem _ (List.mem_append_left _ hform), hmem⟩
      · split at hmem
        · cases hmem
        · exact ⟨effectForm, List.mem_cons_self, hmem⟩
    · exact ⟨form, List.mem_cons_of_mem _ (List.mem_append_right _ hform), hmem⟩
  obtain ⟨form, hform, hfound⟩ := hform
  obtain ⟨other, piece, rest, htext, hopens, hpiece⟩ := exists_opens_of_mem_found hform hfound
  rwa [← eq_before_of_isLiteral hbefore hafter hliteral hpiece (htext.symm.trans hline)]

/-- An identifier that ends in the word `import`, the word `from` and a literal report the
reference, whatever comes before them. -/
theorem mem_extract_of_import (h : IsSole reference line) {words : List Text} (hwords : words ≠ [])
    (hname : "import".toList <:+ name) (hliteral : IsLiteral reference literal)
    (hline : IsLaidOut (words ++ [name, "from".toList, literal]) line) :
    reference ∈ extract line := by
  obtain ⟨start, space, rest, htext, -, -, hrest⟩ := hline.split hwords (List.cons_ne_nil _ _)
  obtain ⟨first, rest, rfl, hfirst, hfrom⟩ := hrest.exists_of_cons
  obtain ⟨head, rfl⟩ := hname
  have hsplit :
      line = (start ++ (space ++ head)) ++ (("import".toList ++ (first ++ rest)) ++ []) := by
    rw [htext]
    simp only [List.append_assoc, List.append_nil]
  have hpiece : importFrom.Describes ("import".toList ++ (first ++ rest)) [(1, reference)] :=
    (describes_word "import").then ((describes_gap_of_isSpace hfirst).then
      (describes_optional_nil.then (describes_fromReference hliteral hfrom)))
  exact h.mem_extract_of_describes (by decide) (by decide) hsplit hpiece (List.cons_ne_nil _ _)

/-- Words that are bindings with commas between them report the reference they are imported from. -/
theorem mem_extract_of_bindings (h : IsSole reference line) {words : List Text}
    (hwords : words ≠ [])
    (hbindings : ∀ text, IsLaidOut words text → ∃ first more, text = first ++ more ∧
      binding.Describes first [] ∧
        (many (sequence [blanks, char (.one ','), blanks, binding])).Describes more [])
    (hliteral : IsLiteral reference literal)
    (hline : IsLaidOut (["import".toList] ++ (words ++ ["from".toList, literal])) line) :
    reference ∈ extract line := by
  obtain ⟨start, space, rest, htext, hstart, hspace, hrest⟩ :=
    hline.split (List.cons_ne_nil _ _) (List.append_ne_nil_of_left_ne_nil hwords _)
  obtain rfl := hstart.eq_of_single
  obtain ⟨bindings, between, last, rfl, hbound, hbetween, hlast⟩ :=
    hrest.split hwords (List.cons_ne_nil _ _)
  obtain ⟨first, more, rfl, hfirst, hmore⟩ := hbindings bindings hbound
  obtain ⟨final, _, rfl, hfinal, hend⟩ := hlast.exists_of_cons
  obtain rfl := hend.eq_of_single
  have hpiece := describes_importFrom (describes_gap_of_isSpace hspace) hfirst hmore
    (describes_gap_of_isSpace hbetween) (describes_gap_of_isSpace hfinal) hliteral
  simp only [List.append_assoc] at htext hpiece
  exact h.mem_extract_of_piece (by decide) (by decide) htext hpiece (List.cons_ne_nil _ _)

/-- A call of `require` after a blank reports the reference, whatever comes before the blank. -/
theorem mem_extract_of_call (h : IsSole reference line) {words : List Text} (hwords : words ≠ [])
    (hliteral : IsLiteral reference literal)
    (hline : IsLaidOut (words ++ ["require(".toList ++ (literal ++ [')'])]) line) :
    reference ∈ extract line := by
  obtain ⟨start, gap, last, htext, -, hgap, hlast⟩ := hline.split hwords (List.cons_ne_nil _ _)
  obtain rfl := hlast.eq_of_single
  obtain ⟨blanks, c, rfl⟩ := (List.eq_nil_or_concat' gap).resolve_left hgap.ne_nil
  have hc : Text.isBlank c = true := hgap.blank c (List.mem_append_right _ List.mem_cons_self)
  have hequals : c ≠ '=' := by
    rintro rfl
    exact absurd hc (by decide)
  have hword : Text.isWord c = false := by
    rw [Bool.eq_false_iff]
    intro hword
    rw [Text.not_isBlank_of_isWord hword] at hc
    cases hc
  have hsplit : line = (start ++ blanks) ++ ([c] ++ ("require(".toList ++ (literal ++ [')']))) := by
    rw [htext]
    simp only [List.append_assoc]
  obtain ⟨place, hplace, hafter⟩ : ∃ place, (Cursor.start line).Reads (start ++ blanks) [] place ∧
      place.after = [c] ++ ("require(".toList ++ (literal ++ [')'])) :=
    ⟨⟨(start ++ blanks).reverse, _, _, rfl, []⟩, ⟨hsplit, (List.append_nil _).symm, rfl⟩, rfl⟩
  obtain ⟨there, hread, hthere⟩ : ∃ there, place.Reads [c] [] there ∧
      there.after = "require(".toList ++ (literal ++ [')']) :=
    ⟨⟨[c].reverse ++ place.before, _, _, rfl, place.groups⟩, ⟨hafter, rfl, rfl⟩, rfl⟩
  have hcall : ways (callWith "require") there ≠ [] := by
    have hthere : there.after = ("require".toList ++ '(' :: (literal ++ [')'])) ++ [] := by
      rw [hthere, List.append_nil]
      rfl
    exact ways_ne_nil (by decide) (describes_callWith "require" hliteral) hthere
  obtain ⟨last, hlast⟩ := List.exists_mem_of_ne_nil _ hcall
  have hways : ways freeRequire place ≠ [] := List.ne_nil_of_mem
    (mem_ways_freeRequire_iff.mpr (Or.inr ⟨c, there, hequals, hword, hread, hlast⟩))
  exact h.mem_extract_of_ways (by decide) hplace (by simp [hafter]) hways

end IsSole

end SourceLoom.Reference
