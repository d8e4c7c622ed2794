import SourceLoom.Proofs.Reference.Sole

/-!
# Statements that bind identifiers

Six statements that bind an identifier and quote a reference, on one line and with any blanks
between their words. Where the identifier is a name, each of them reports its reference. A dollar
sign hides the reference, with two exceptions: a call of `require` after a blank is one that need
not be bound, and where the identifier ends in the word `import` right before the word `from`,
these words are an import without bindings.
-/

namespace SourceLoom.Reference

open Pattern

open Text (IsSolid IsSpace IsLaidOut wordsOf)

variable {reference literal line before after : Text}

/-- The statements with a reference that bind identifiers. -/
inductive Naming where
  /-- The default is imported under a name. -/
  | importDefault (name : Text)
  /-- Everything is imported under one name. -/
  | importAll (name : Text)
  /-- The default is imported under a name, and another name is imported in braces. -/
  | importDefaultNames (name inner : Text)
  /-- Everything is exported under one name. -/
  | exportAllAs (name : Text)
  /-- A variable is bound to a loaded module, with blanks around the equals sign. -/
  | bound (name : Text)
  /-- A variable is bound to a loaded module, without blanks around the equals sign. -/
  | boundClosely (name : Text)
  deriving DecidableEq

namespace Naming

/-- The identifiers that the statement binds. -/
def names : Naming → List Text
  | importDefaultNames name inner => [name, inner]
  | importDefault name | importAll name | exportAllAs name => [name]
  | bound name | boundClosely name => [name]

/-- The words before the one with the literal. -/
def front : Naming → List Text
  | importDefault name => ["import".toList, name, "from".toList]
  | importAll name => ["import".toList, ['*'], "as".toList, name, "from".toList]
  | importDefaultNames name inner =>
    ["import".toList, name ++ [','], ['\x7b'], inner, ['\x7d'], "from".toList]
  | exportAllAs name => ["export".toList, ['*'], "as".toList, name, "from".toList]
  | bound name => ["const".toList, name, ['=']]
  | boundClosely _ => ["const".toList]

/-- What stands before the literal in its word. -/
def lead : Naming → Text
  | bound _ => "require(".toList
  | boundClosely name => name ++ "=require(".toList
  | _ => []

/-- What stands after the literal in its word. -/
def close : Naming → Text
  | bound _ | boundClosely _ => [')']
  | _ => []

/-- The words of the statement with a literal. -/
def words (kind : Naming) (literal : Text) : List Text :=
  kind.front ++ [kind.lead ++ (literal ++ kind.close)]

/-- No dollar sign is where a form wants a name, or another form helps: an import without bindings
whose first word the identifier ends in, or a call after a blank. -/
def IsReported : Naming → Prop
  | importDefault name | importAll name | exportAllAs name => '$' ∉ name ∨ "import".toList <:+ name
  | importDefaultNames name _ | boundClosely name => '$' ∉ name
  | bound _ => True

/-- Whether the reference is reported can be computed. -/
instance : DecidablePred IsReported
  | importDefault name | importAll name | exportAllAs name =>
    inferInstanceAs (Decidable ('$' ∉ name ∨ "import".toList <:+ name))
  | importDefaultNames name _ | boundClosely name => inferInstanceAs (Decidable ('$' ∉ name))
  | bound _ => inferInstanceAs (Decidable True)

variable {kind : Naming} {name inner : Text}

/-- The words of the statement before its literal, and the blanks between them. -/
theorem exists_layout (h : IsLaidOut (kind.words literal) line) :
    ∃ start gap, line = start ++ (gap ++ kind.lead) ++ (literal ++ kind.close) ∧
      IsLaidOut kind.front start ∧ IsSpace gap := by
  have hne : kind.front ≠ [] := by cases kind <;> exact List.cons_ne_nil _ _
  obtain ⟨start, gap, last, rfl, hstart, hgap, hlast⟩ := h.split hne (List.cons_ne_nil _ _)
  obtain rfl := hlast.eq_of_single
  exact ⟨start, gap, by simp only [List.append_assoc], hstart, hgap⟩

/-- A keyword begins the statement. -/
theorem startsCode_of_front {start : Text} (h : IsLaidOut kind.front start) :
    StartsCode start := by
  obtain ⟨word, more, hfront, hword⟩ : ∃ word more, kind.front = word :: more ∧
      StartsCode word := by
    cases kind <;> exact ⟨_, _, rfl, _, _, rfl, by decide, by decide, by decide⟩
  rw [hfront] at h
  obtain ⟨rest, rfl⟩ := h.word_prefix
  exact hword.append rest

/-- The statement ends in a quote or a parenthesis. -/
theorem exists_last (kind : Naming) (h : IsLiteral reference literal) (before : Text) :
    ∃ kept last, before ++ (literal ++ kind.close) = kept ++ [last] ∧
      Text.isBlank last = false := by
  have hclose : kind.close = [] ∨ kind.close = [')'] := by
    cases kind with
    | bound | boundClosely => exact Or.inr rfl
    | _ => exact Or.inl rfl
  rcases hclose with hclose | hclose
  · obtain @⟨opening, closing, -, -, -, hclosing⟩ := h
    refine ⟨before ++ opening :: reference, closing, ?_, not_isBlank_of_mem_quotes hclosing⟩
    rw [hclose]
    simp only [List.append_assoc, List.append_nil]
  · refine ⟨before ++ literal, ')', ?_, by decide⟩
    rw [hclose, List.append_assoc]

/-- No quote is in an identifier. -/
theorem quoteFree_of_isIdentifier (h : IsIdentifier name) : QuoteFree name := by
  intro c hc hquote
  have hall : ∀ c ∈ quotes, c ≠ '$' := by decide
  exact h.not_mem (not_isWord_of_mem_quotes hquote) (hall c hquote) hc

section Statement

variable (hnames : ∀ name ∈ kind.names, IsIdentifier name)

include hnames

/-- What stands before the literal are words without quotes. -/
theorem front_isSolid : ∀ word ∈ kind.front, IsSolid word ∧ QuoteFree word := by
  have hname {name : Text} (h : name ∈ kind.names) : IsSolid name ∧ QuoteFree name :=
    ⟨(hnames name h).isSolid, quoteFree_of_isIdentifier (hnames name h)⟩
  cases kind with
  | importDefault name =>
    simp only [front, List.forall_mem_cons]
    exact ⟨by decide, hname List.mem_cons_self, by decide, nofun⟩
  | importDefaultNames name inner =>
    obtain ⟨hsolid, hfree⟩ := hname List.mem_cons_self
    have hcomma : IsSolid (name ++ [',']) ∧ QuoteFree (name ++ [',']) :=
      ⟨⟨by simp, List.forall_mem_append.mpr ⟨hsolid.2, by decide⟩⟩,
        quoteFree_append.mpr ⟨hfree, by decide⟩⟩
    simp only [front, List.forall_mem_cons]
    exact ⟨by decide, hcomma, by decide, hname (List.mem_cons_of_mem _ List.mem_cons_self),
      by decide, by decide, nofun⟩
  | importAll name | exportAllAs name =>
    simp only [front, List.forall_mem_cons]
    exact ⟨by decide, by decide, by decide, hname List.mem_cons_self, by decide, nofun⟩
  | bound name =>
    simp only [front, List.forall_mem_cons]
    exact ⟨by decide, hname List.mem_cons_self, by decide, nofun⟩
  | boundClosely name =>
    simp only [front, List.forall_mem_cons]
    exact ⟨by decide, nofun⟩

/-- Neither a quote nor a blank is right before or right after the literal. -/
theorem lead_close : (QuoteFree kind.lead ∧ QuoteFree kind.close) ∧
    ∀ c ∈ kind.lead ++ kind.close, Text.isBlank c = false := by
  cases kind with
  | bound name =>
    have hcall : (QuoteFree "require(".toList ∧ QuoteFree [')']) ∧
        ∀ c ∈ "require(".toList ++ [')'], Text.isBlank c = false := by decide
    exact hcall
  | boundClosely name =>
    have hcall : (QuoteFree "=require(".toList ∧ QuoteFree [')']) ∧
        ∀ c ∈ "=require(".toList ++ [')'], Text.isBlank c = false := by decide
    have hname := hnames name List.mem_cons_self
    refine ⟨⟨quoteFree_append.mpr ⟨quoteFree_of_isIdentifier hname, hcall.1.1⟩, hcall.1.2⟩, ?_⟩
    have hassoc : (boundClosely name).lead ++ (boundClosely name).close =
        name ++ ("=require(".toList ++ [')']) := List.append_assoc _ _ _
    rw [hassoc]
    exact List.forall_mem_append.mpr ⟨hname.isSolid.2, hcall.2⟩
  | _ => exact ⟨⟨nofun, nofun⟩, nofun⟩

/-- No quote stands before the literal. -/
theorem quoteFree_before {start gap : Text} (hstart : IsLaidOut kind.front start)
    (hgap : IsSpace gap) : QuoteFree (start ++ (gap ++ kind.lead)) := by
  have hblank (c : Char) (hc : Text.isBlank c = true) : c ∉ quotes := by
    intro hquote
    rw [not_isBlank_of_mem_quotes hquote] at hc
    cases hc
  refine quoteFree_append.mpr ⟨?_, quoteFree_append.mpr ⟨?_, (lead_close hnames).1.1⟩⟩
  · exact hstart.forall_mem (fun c hc _ => hblank c hc) fun word hword =>
      (front_isSolid hnames word hword).2
  · exact fun c hc => hblank c (hgap.blank c hc)

/-- No line break is in the statement. -/
theorem no_break (hliteral : IsLiteral reference literal)
    (hbreak : ∀ c ∈ reference, Text.isLineBreak c = false)
    (h : IsLaidOut (kind.words literal) line) : ∀ c ∈ line, Text.isLineBreak c = false := by
  refine h.forall_mem (fun c _ hc => hc) fun word hword c hc => ?_
  rw [words, List.mem_append, List.mem_singleton] at hword
  rcases hword with hword | rfl
  · exact Text.not_isLineBreak_of_not_isBlank ((front_isSolid hnames word hword).1.2 c hc)
  · rw [List.mem_append, List.mem_append] at hc
    rcases hc with hc | hc | hc
    · exact Text.not_isLineBreak_of_not_isBlank
        ((lead_close hnames).2 c (List.mem_append_left _ hc))
    · exact hliteral.no_break hbreak c hc
    · exact Text.not_isLineBreak_of_not_isBlank
        ((lead_close hnames).2 c (List.mem_append_right _ hc))

/-- The statement is a line in which its reference alone is quoted. -/
theorem isSole (hliteral : IsLiteral reference literal)
    (hbreak : ∀ c ∈ reference, Text.isLineBreak c = false)
    (h : IsLaidOut (kind.words literal) line) : IsSole reference line := by
  obtain ⟨start, gap, htext, hstart, hgap⟩ := exists_layout h
  have hcode : StartsCode line := by
    rw [htext]
    exact ((startsCode_of_front hstart).append _).append _
  refine ⟨?_, codeLines_of_no_break hcode (no_break hnames hliteral hbreak h), ?_⟩
  · rw [htext]
    exact Quoting.around (quoteFree_before hnames hstart hgap) hliteral (lead_close hnames).1.2
  · obtain ⟨c, rest, hfirst, hc, -⟩ := hcode
    obtain ⟨kept, last, hlast, hblank⟩ :=
      exists_last kind hliteral (start ++ (gap ++ kind.lead))
    rw [← htext, hfirst] at hlast
    rw [hfirst]
    exact Text.strip_eq_self hc hblank hlast

end Statement

/-- The words of a statement that does not call. -/
theorem words_of_plain (hlead : kind.lead = []) (hclose : kind.close = []) :
    kind.words literal = kind.front ++ [literal] := by
  rw [words, hlead, hclose, List.nil_append, List.append_nil]

/-- A statement whose identifiers are where a form wants them, or where another form helps, reports
its reference. -/
theorem mem_extract (hnames : ∀ name ∈ kind.names, IsIdentifier name)
    (hliteral : IsLiteral reference literal)
    (hbreak : ∀ c ∈ reference, Text.isLineBreak c = false)
    (h : IsLaidOut (kind.words literal) line) (hreported : kind.IsReported) :
    reference ∈ extract line := by
  have hsole := isSole hnames hliteral hbreak h
  have hname {name : Text} (hmem : name ∈ kind.names) (hdollar : '$' ∉ name) : IsName name :=
    (hnames name hmem).isName hdollar
  cases kind with
  | importDefault name =>
    rw [words_of_plain rfl rfl] at h
    rcases hreported with hdollar | himport
    · refine hsole.mem_extract_of_bindings (List.cons_ne_nil name []) (fun text htext => ?_)
        hliteral h
      obtain rfl := htext.eq_of_single
      exact ⟨name, [], (List.append_nil name).symm,
        describes_binding_name (hname List.mem_cons_self hdollar), describes_many_nil⟩
    · exact hsole.mem_extract_of_import (List.cons_ne_nil "import".toList []) himport hliteral h
  | importAll name =>
    rw [words_of_plain rfl rfl] at h
    rcases hreported with hdollar | himport
    · have hne : [['*'], "as".toList, name] ≠ [] := List.cons_ne_nil _ _
      refine hsole.mem_extract_of_bindings hne (fun text htext => ?_) hliteral h
      obtain ⟨first, _, rfl, hfirst, h₁⟩ := htext.exists_of_cons
      obtain ⟨second, _, rfl, hsecond, h₂⟩ := h₁.exists_of_cons
      obtain rfl := h₂.eq_of_single
      exact ⟨_, [], (List.append_nil _).symm, describes_binding_all
        (describes_gap_of_isSpace hfirst) (describes_gap_of_isSpace hsecond)
          (hname List.mem_cons_self hdollar), describes_many_nil⟩
    · have hne : ["import".toList, ['*'], "as".toList] ≠ [] := List.cons_ne_nil _ _
      exact hsole.mem_extract_of_import hne himport hliteral h
  | importDefaultNames name inner =>
    rw [words_of_plain rfl rfl] at h
    have hinner : IsIdentifier inner := hnames inner (List.mem_cons_of_mem _ List.mem_cons_self)
    exact hsole.mem_extract_of_bindings (List.cons_ne_nil _ _)
      (fun text => exists_describes_names (hname List.mem_cons_self hreported) hinner) hliteral h
  | exportAllAs name =>
    rw [words_of_plain rfl rfl] at h
    rcases hreported with hdollar | himport
    · have hpiece : Reference.exportAllAs.Describes line [(1, reference)] :=
        describes_next (describes_word "export") (describes_next (describes_one '*')
          (describes_next (describes_word "as") (describes_next
            (describes_name (hname List.mem_cons_self hdollar))
            (describes_fromReference hliteral)))) h
      obtain ⟨rest, hrest⟩ := h.word_prefix
      exact hsole.mem_extract_of_piece (by decide) (by decide) rfl hpiece (by simp [← hrest])
    · have hne : ["export".toList, ['*'], "as".toList] ≠ [] := List.cons_ne_nil _ _
      exact hsole.mem_extract_of_import hne himport hliteral h
  | bound name =>
    have hne : ["const".toList, name, ['=']] ≠ [] := List.cons_ne_nil _ _
    exact hsole.mem_extract_of_call hne hliteral h
  | boundClosely name =>
    have hbound := describes_name (hname List.mem_cons_self hreported)
    obtain ⟨space, _, htext, hspace, hend⟩ := h.exists_of_cons
    obtain rfl := hend.eq_of_single
    have hpiece := describes_boundRequire (by decide : "const".toList ∈ keywords)
      (describes_gap_of_isSpace hspace) hbound.left.right describes_blanks_nil
      describes_blanks_nil hliteral
    have hsame : line = "const".toList ++ (space ++ (name ++ ([] ++ (['='] ++ ([] ++
        ("require".toList ++ '(' :: (literal ++ [')']))))))) := by
      rw [htext]
      exact congrArg (fun rest => "const".toList ++ (space ++ rest)) (List.append_assoc name _ _)
    exact hsole.mem_extract_of_piece (by decide) (by decide) hsame hpiece (List.cons_ne_nil _ _)

section Missed

variable (hnames : ∀ name ∈ kind.names, IsIdentifier name) (h : Opens before) {start gap : Text}
  (hstart : IsLaidOut kind.front start) (hgap : IsSpace gap)
  (hbefore : before = start ++ (gap ++ kind.lead))

include hnames h hstart hgap hbefore

/-- In a statement that imports a default and a name in braces, the default is a name if a form
finds the reference. -/
theorem not_mem_dollar_of_names (hkind : kind = importDefaultNames name inner) : '$' ∉ name := by
  intro hdollar
  subst hkind
  have hname : IsIdentifier name := hnames name List.mem_cons_self
  have hinner : IsIdentifier inner := hnames inner (List.mem_cons_of_mem _ List.mem_cons_self)
  have hsolid := front_isSolid hnames
  have hlead : (importDefaultNames name inner).lead = [] := rfl
  rw [hlead, List.append_nil] at hbefore
  have hwords : wordsOf before = (importDefaultNames name inner).front := by
    rw [hbefore, Text.wordsOf_append_blanks hgap.blank]
    exact hstart.wordsOf_eq fun word hword => (hsolid word hword).1
  have hfront : (importDefaultNames name inner).front = ["import".toList, name ++ [',']] ++
      [['\x7b'], inner, ['\x7d'], "from".toList] := rfl
  rw [hfront] at hstart hsolid
  obtain ⟨first, space, rest, rfl, hfirst, hspace, hrest⟩ :=
    hstart.split (List.cons_ne_nil _ _) (List.cons_ne_nil _ _)
  obtain ⟨between, rest, rfl, hbetween, hrest⟩ := hrest.exists_of_cons
  have hfirstWords : wordsOf (first ++ space) = ["import".toList, name ++ [',']] := by
    rw [Text.wordsOf_append_blanks hspace.blank]
    exact hfirst.wordsOf_eq fun word hword => (hsolid word (List.mem_append_left _ hword)).1
  have hblank (c : Char) (hc : Text.isBlank c = true) : c ≠ '\x7b' := by
    rintro rfl
    exact absurd hc (by decide)
  have hbrace : ∀ c ∈ between ++ (rest ++ gap), c ≠ '\x7b' := by
    simp only [List.forall_mem_append]
    refine ⟨fun c hc => hblank c (hbetween.blank c hc), ?_, fun c hc => hblank c (hgap.blank c hc)⟩
    refine hrest.forall_mem (fun c hc _ => hblank c hc) ?_
    simp only [List.forall_mem_cons]
    exact ⟨fun c hc hopen => hinner.not_mem (by decide) (by decide) (hopen ▸ hc), by decide,
      by decide, nofun⟩
  refine not_opens_names hname hdollar hinner ?_ (fun hmem => hbrace _ hmem rfl) hfirstWords
    hwords h
  rw [hbefore]
  simp only [List.append_assoc, List.cons_append, List.nil_append]

/-- In a statement that calls right after the equals sign, the variable is a name if a form finds
the reference. -/
theorem not_mem_dollar_of_closely (hkind : kind = boundClosely name) : '$' ∉ name := by
  intro hdollar
  subst hkind
  have hname : IsIdentifier name := hnames name List.mem_cons_self
  have hstartWords : wordsOf start = ["const".toList] :=
    hstart.wordsOf_eq fun word hword => (front_isSolid hnames word hword).1
  have hlead : (boundClosely name).lead = name ++ "=require(".toList := rfl
  rw [hlead] at hbefore
  have hcall : IsSolid (name ++ "=require(".toList) :=
    ⟨List.append_ne_nil_of_left_ne_nil hname.1 _,
      List.forall_mem_append.mpr ⟨hname.isSolid.2, by decide⟩⟩
  have hnameWords : wordsOf (start ++ (gap ++ name)) = ["const".toList, name] := by
    rw [Text.wordsOf_append_gap hgap.blank hgap.ne_nil, hstartWords, hname.isSolid.wordsOf]
    rfl
  have hwords : wordsOf before = ["const".toList, name ++ "=require(".toList] := by
    rw [hbefore, Text.wordsOf_append_gap hgap.blank hgap.ne_nil, hstartWords, hcall.wordsOf]
    rfl
  refine not_opens_closely hname hdollar ?_ hnameWords hwords h
  rw [hbefore]
  simp only [List.append_assoc]

/-- A statement whose reference a form finds has its identifiers where the form wants them, or
another form helps. -/
theorem isReported_of_opens : kind.IsReported := by
  have hplain (hlead : kind.lead = []) : wordsOf before = kind.front := by
    rw [hbefore, hlead, List.append_nil, Text.wordsOf_append_blanks hgap.blank]
    exact hstart.wordsOf_eq fun word hword => (front_isSolid hnames word hword).1
  have hcases {name : Text} {words : List Text} (hmem : name ∈ kind.names)
      (hkeywords : ∀ word ∈ words, word ∈ ["import".toList, "export".toList, ['*'], "as".toList])
      (hwords : wordsOf before = words ++ [name, "from".toList]) :
      '$' ∉ name ∨ "import".toList <:+ name := by
    by_cases hdollar : '$' ∈ name
    · exact Or.inr (h.import_isSuffix (hnames name hmem) hdollar hwords hkeywords)
    · exact Or.inl hdollar
  cases kind with
  | importDefault name =>
    have hkeywords : ∀ word ∈ ["import".toList],
        word ∈ ["import".toList, "export".toList, ['*'], "as".toList] := by decide
    exact hcases List.mem_cons_self hkeywords (hplain rfl)
  | importAll name =>
    have hkeywords : ∀ word ∈ ["import".toList, ['*'], "as".toList],
        word ∈ ["import".toList, "export".toList, ['*'], "as".toList] := by decide
    exact hcases List.mem_cons_self hkeywords (hplain rfl)
  | importDefaultNames name inner =>
    exact not_mem_dollar_of_names hnames h hstart hgap hbefore rfl
  | exportAllAs name =>
    have hkeywords : ∀ word ∈ ["export".toList, ['*'], "as".toList],
        word ∈ ["import".toList, "export".toList, ['*'], "as".toList] := by decide
    exact hcases List.mem_cons_self hkeywords (hplain rfl)
  | bound name => exact trivial
  | boundClosely name => exact not_mem_dollar_of_closely hnames h hstart hgap hbefore rfl

end Missed

/-- Of a statement on one line that binds identifiers, and whose literal holds a text without blanks
and quotes, the text is reported exactly if it is not empty and no dollar sign is where a form wants
a name, two cases apart: an identifier that ends in the word `import` is passed over, and so is what
comes before a blank and a call. -/
theorem extract_naming_iff (kind : Naming) (reference line : Text) {quote : Char}
    (hnames : ∀ name ∈ kind.names, IsIdentifier name) (hquote : quote ∈ quotes)
    (hreference : ∀ c ∈ reference, c ∉ quotes ∧ Text.isBlank c = false)
    (h : IsLaidOut (kind.words (quote :: reference ++ [quote])) line) :
    reference ∈ extract line ↔ reference ≠ [] ∧ kind.IsReported := by
  have hbreak : ∀ c ∈ reference, Text.isLineBreak c = false :=
    fun c hc => Text.not_isLineBreak_of_not_isBlank (hreference c hc).2
  have hliteral (hne : reference ≠ []) : IsLiteral reference (quote :: reference ++ [quote]) :=
    .mk hquote hne (fun c hc => (hreference c hc).1) hquote
  constructor
  · intro hmem
    have hne : reference ≠ [] := (standsQuoted_of_mem_extract hmem).2.1
    obtain ⟨start, gap, htext, hstart, hgap⟩ := exists_layout h
    have hopens : Opens (start ++ (gap ++ kind.lead)) :=
      (isSole hnames (hliteral hne) hbreak h).opens htext (quoteFree_before hnames hstart hgap)
        (lead_close hnames).1.2 (hliteral hne) hmem
    exact ⟨hne, isReported_of_opens hnames hopens hstart hgap rfl⟩
  · rintro ⟨hne, hreported⟩
    exact mem_extract hnames (hliteral hne) hbreak h hreported

/-- The reference of an identifier that ends in the word `import` is reported, and that of a lone
dollar sign is not. -/
theorem extract_naming_dollar :
    (IsLaidOut ((importAll "$import".toList).words "'./x'".toList)
        "import  *\tas $import from './x'".toList ∧
      "./x".toList ∈ extract "import  *\tas $import from './x'".toList) ∧
    IsLaidOut ((importDefault ['$']).words "\"./x\"".toList) "import $  from \"./x\"".toList ∧
      "./x".toList ∉ extract "import $  from \"./x\"".toList := by
  have hone : IsSpace [' '] := ⟨by decide, by decide, by decide⟩
  have htwo : IsSpace [' ', ' '] := ⟨by decide, by decide, by decide⟩
  have htab : IsSpace ['\t'] := ⟨by decide, by decide, by decide⟩
  have hall : IsLaidOut ((importAll "$import".toList).words "'./x'".toList)
      "import  *\tas $import from './x'".toList :=
    .cons _ htwo (.cons _ htab (.cons _ hone (.cons _ hone (.cons _ hone (.single _)))))
  have hdefault : IsLaidOut ((importDefault ['$']).words "\"./x\"".toList)
      "import $  from \"./x\"".toList :=
    .cons _ hone (.cons _ htwo (.cons _ hone (.single _)))
  have hreference : ∀ c ∈ "./x".toList, c ∉ quotes ∧ Text.isBlank c = false := by decide
  have hfound := extract_naming_iff (importAll "$import".toList) "./x".toList _ (by decide)
    (by decide : '\'' ∈ quotes) hreference hall
  have hmissed := extract_naming_iff (importDefault ['$']) "./x".toList _ (by decide)
    (by decide : '"' ∈ quotes) hreference hdefault
  exact ⟨⟨hall, hfound.mpr (by decide)⟩, hdefault, fun h => absurd (hmissed.mp h) (by decide)⟩

/-- A default imported under a dollar sign is an identifier whose reference is not reported. -/
theorem exists_identifier_missed :
    IsIdentifier ['$'] ∧
      IsLaidOut ((importDefault ['$']).words "'./x'".toList) "import $ from './x'".toList ∧
      extract "import $ from './x'".toList = [] := by
  have hone : IsSpace [' '] := ⟨by decide, by decide, by decide⟩
  exact ⟨by decide, .cons _ hone (.cons _ hone (.cons _ hone (.single _))), by decide +kernel⟩

end Naming

end SourceLoom.Reference
