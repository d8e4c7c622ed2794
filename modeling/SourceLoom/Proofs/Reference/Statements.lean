import SourceLoom.Proofs.Reference.Code

/-!
# Statements with a reference

The statements that quote a reference, written with single spaces between their parts. A braced
statement has names in braces, which may stand on lines of their own; a plain one has not. Each
quotes its reference and nothing else, and is a piece of one of the forms: of a form that may
spread over lines if it is braced and imports no types, and of a form on one line otherwise.
-/

namespace SourceLoom.Reference

open Pattern

variable {text inner reference literal : Text}

/-- No quote, no closing brace and no line break is in a text. -/
def IsPlain (text : Text) : Prop :=
  ∀ c ∈ text, c ∉ quotes ∧ c ≠ '\x7d' ∧ Text.isLineBreak c = false

/-- Texts can be tested for being plain. -/
instance (text : Text) : Decidable (IsPlain text) := by
  unfold IsPlain
  infer_instance

section Characters

/-- A quote is no word character. -/
theorem not_isWord_of_mem_quotes {c : Char} (h : c ∈ quotes) : Text.isWord c = false := by
  have hall : ∀ c ∈ quotes, Text.isWord c = false := by decide
  exact hall c h

/-- A quote is not blank. -/
theorem not_isBlank_of_mem_quotes {c : Char} (h : c ∈ quotes) : Text.isBlank c = false := by
  have hall : ∀ c ∈ quotes, Text.isBlank c = false := by decide
  exact hall c h

/-- No quote is among blanks. -/
theorem IsBlank.quoteFree (h : IsBlank text) : QuoteFree text := by
  intro c hc hquote
  have hblank := h c hc
  rw [not_isBlank_of_mem_quotes hquote] at hblank
  cases hblank

/-- No closing brace is among blanks. -/
theorem IsBlank.not_mem_brace (h : IsBlank text) : '\x7d' ∉ text := by
  intro hmem
  exact absurd (h _ hmem) (by decide)

/-- A name is plain. -/
theorem IsName.isPlain (h : IsName text) : IsPlain text := by
  intro c hc
  have hword := h.2 c hc
  refine ⟨?_, ?_, h.no_break c hc⟩
  · intro hquote
    rw [not_isWord_of_mem_quotes hquote] at hword
    cases hword
  · rintro rfl
    exact absurd hword (by decide)

/-- Two texts together are plain just when both are. -/
theorem isPlain_append {s t : Text} : IsPlain (s ++ t) ↔ IsPlain s ∧ IsPlain t :=
  List.forall_mem_append

/-- No quote is in a plain text. -/
theorem IsPlain.quoteFree (h : IsPlain text) : QuoteFree text := fun c hc => (h c hc).1

/-- No closing brace is in a plain text. -/
theorem IsPlain.not_mem_brace (h : IsPlain text) : '\x7d' ∉ text := fun hmem => (h _ hmem).2.1 rfl

/-- No line break is in a plain text. -/
theorem IsPlain.no_break (h : IsPlain text) : ∀ c ∈ text, Text.isLineBreak c = false :=
  fun c hc => (h c hc).2.2

/-- No quote is in a tail. -/
theorem IsTail.quoteFree (h : IsTail text) : QuoteFree text := by
  have hword : ∀ w : Text, IsPlain w → QuoteFree w := fun w => IsPlain.quoteFree
  have hfrom := hword "from".toList (by decide)
  have hrequire := hword "require".toList (by decide)
  cases h with
  | ofFrom hfirst hsecond =>
    exact quoteFree_append.mpr ⟨quoteFree_append.mpr ⟨hfirst.quoteFree, hfrom⟩, hsecond.quoteFree⟩
  | ofRequire hfirst hsecond hthird hfourth =>
    simp only [quoteFree_append, quoteFree_cons, List.append_assoc, List.cons_append]
    exact ⟨hfirst.quoteFree, by decide, hsecond.quoteFree, hrequire, hthird.quoteFree, by decide,
      hfourth.quoteFree⟩

end Characters

/-- The keywords that introduce a variable. -/
def keywords : List Text := ["const".toList, "let".toList, "var".toList]

section Pieces

/-- A fixed word is a piece of its place. -/
theorem describes_word (w : String) : (word w).Describes w.toList [] :=
  describes_word_iff.mpr ⟨rfl, rfl⟩

/-- A character is a piece of its place. -/
theorem describes_one (c : Char) : (char (.one c)).Describes [c] [] :=
  describes_one_iff.mpr ⟨rfl, rfl⟩

/-- A space is a gap. -/
theorem describes_gap : gap.Describes [' '] [] :=
  describes_gap_iff.mpr ⟨rfl, List.forall_mem_singleton.mpr (by decide), by decide⟩

/-- A space is a number of blanks. -/
theorem describes_blanks_space : blanks.Describes [' '] [] :=
  describes_blanks_iff.mpr ⟨rfl, List.forall_mem_singleton.mpr (by decide)⟩

/-- Nothing is a number of blanks. -/
theorem describes_blanks_nil : blanks.Describes [] [] := describes_blanks_iff.mpr ⟨rfl, nofun⟩

/-- A name is a piece of its place. -/
theorem describes_name (h : IsName text) : name.Describes text [] :=
  describes_name_iff.mpr ⟨rfl, h⟩

/-- Braces around a text without a closing brace are a piece of their place. -/
theorem describes_braces (h : '\x7d' ∉ inner) : braces.Describes ('\x7b' :: inner ++ ['\x7d']) [] :=
  describes_braces_iff.mpr ⟨rfl, inner, h, rfl⟩

/-- A literal is a piece of the place of a quoted reference. -/
theorem describes_quotedReference (h : IsLiteral reference literal) :
    quotedReference.Describes literal [(1, reference)] :=
  describes_quotedReference_iff.mpr ⟨reference, h, rfl⟩

/-- The call of a loader with a literal is a piece of its place. -/
theorem describes_callWith (loader : String) (h : IsLiteral reference literal) :
    (callWith loader).Describes (loader.toList ++ '(' :: (literal ++ [')'])) [(1, reference)] := by
  have hclose : (seq blanks (char (.one ')'))).Describes [')'] [] :=
    describes_blanks_nil.then (describes_one ')')
  have hquoted : (seq quotedReference (seq blanks (char (.one ')')))).Describes (literal ++ [')'])
      [(1, reference)] := (describes_quotedReference h).seq hclose
  exact (describes_word loader).then (describes_blanks_nil.then
    ((describes_one '(').then (describes_blanks_nil.then hquoted)))

/-- A keyword is a piece of the place of one. -/
theorem describes_variableKeyword (h : text ∈ keywords) : variableKeyword.Describes text [] := by
  simp only [keywords, List.mem_cons, List.not_mem_nil, or_false] at h
  rcases h with rfl | rfl | rfl
  · exact (describes_word "const").left
  · exact (describes_word "let").left.right
  · exact (describes_word "var").right.right

/-- Types imported from a literal are a piece of their form, whatever stands for them on one line.
-/
theorem describes_importTypesFrom (hinner : '\n' ∉ inner) (h : IsLiteral reference literal) :
    importTypesFrom.Describes
      ("import type ".toList ++ (inner ++ (" from ".toList ++ literal))) [(1, reference)] := by
  have hbetween : (few (char (.outside ['\n']))).Describes inner [] := by
    refine describes_few_char_iff.mpr ⟨rfl, fun c hc => ?_⟩
    rw [CharSet.has_outside, List.mem_singleton]
    rintro rfl
    exact hinner hc
  exact (describes_word "import").then (describes_gap.then ((describes_word "type").then
    (describes_gap.then (hbetween.then (describes_gap.then ((describes_word "from").then
      (describes_gap.then (describes_quotedReference h))))))))

/-- A name is a binding. -/
theorem describes_binding_name (h : IsName text) : binding.Describes text [] :=
  (describes_name h).right.right

/-- Everything under a name is a binding. -/
theorem describes_binding_all {first second : Text} (hfirst : gap.Describes first [])
    (hsecond : gap.Describes second []) (h : IsName text) :
    binding.Describes (['*'] ++ (first ++ ("as".toList ++ (second ++ text)))) [] := by
  have hpiece : (sequence [char (.one '*'), gap, word "as", gap, name]).Describes
      (['*'] ++ (first ++ ("as".toList ++ (second ++ text)))) [] :=
    (describes_one '*').then (hfirst.then ((describes_word "as").then
      (hsecond.then (describes_name h))))
  exact hpiece.left.right

/-- A binding, further ones, and a literal are a piece of the form of imports. -/
theorem describes_importFrom {first more opening between last : Text}
    (hopening : gap.Describes opening []) (hfirst : binding.Describes first [])
    (hmore : (many (sequence [blanks, char (.one ','), blanks, binding])).Describes more [])
    (hbetween : gap.Describes between []) (hlast : gap.Describes last [])
    (h : IsLiteral reference literal) :
    importFrom.Describes ("import".toList ++ (opening ++ ((first ++ (more ++ between)) ++
      ("from".toList ++ (last ++ literal))))) [(1, reference)] :=
  (describes_word "import").then (hopening.then
    ((hfirst.then (hmore.then hbetween)).optional.then ((describes_word "from").then
      (hlast.then (describes_quotedReference h)))))

/-- A variable that is bound to a loaded module is a piece of its form. -/
theorem describes_boundRequire {keyword first second third : Text} (hkeyword : keyword ∈ keywords)
    (hfirst : gap.Describes first [])
    (hbound : (oneOf braces [name, seq (char (.one '[')) (upTo ']')]).Describes inner [])
    (hsecond : blanks.Describes second []) (hthird : blanks.Describes third [])
    (h : IsLiteral reference literal) :
    boundRequire.Describes (keyword ++ (first ++ (inner ++ (second ++ (['='] ++ (third ++
      ("require".toList ++ '(' :: (literal ++ [')'])))))))) [(1, reference)] :=
  (describes_variableKeyword hkeyword).then (hfirst.then (hbound.then
    (hsecond.then ((describes_one '=').then (hthird.then (describes_callWith "require" h))))))

/-- A name in brackets is a piece of their place. -/
theorem describes_brackets (h : IsName text) :
    (seq (char (.one '[')) (upTo ']')).Describes ('[' :: text ++ [']']) [] := by
  refine (describes_one '[').then (describes_upTo_iff.mpr ⟨rfl, text, fun hmem => ?_, rfl⟩)
  exact absurd (h.2 _ hmem) (by decide)

/-- No line feed is in a name. -/
theorem IsName.not_mem_lineFeed (h : IsName text) : '\n' ∉ text := by
  intro hmem
  exact absurd (h.2 _ hmem) (by decide)

end Pieces

/-- No line break is in a literal whose reference has none. -/
theorem IsLiteral.no_break (h : IsLiteral reference literal)
    (hbreak : ∀ c ∈ reference, Text.isLineBreak c = false) :
    ∀ c ∈ literal, Text.isLineBreak c = false := by
  have hquote : ∀ c ∈ quotes, Text.isLineBreak c = false := by decide
  obtain ⟨hopening, -, -, hclosing⟩ := h
  refine List.forall_mem_append.mpr ⟨List.forall_mem_cons.mpr ⟨hquote _ hopening, hbreak⟩, ?_⟩
  exact List.forall_mem_singleton.mpr (hquote _ hclosing)

/-- What may end a statement: nothing, or a semicolon. -/
def IsEnd (text : Text) : Prop := text = [] ∨ text = [';']

/-- An end is plain. -/
theorem IsEnd.isPlain (h : IsEnd text) : IsPlain text := by
  rcases h with rfl | rfl <;> decide

/-- A keyword is plain, and it begins with a character that begins no comment. -/
theorem isPlain_of_mem_keywords (h : text ∈ keywords) : IsPlain text ∧ StartsCode text := by
  simp only [keywords, List.mem_cons, List.not_mem_nil, or_false] at h
  rcases h with rfl | rfl | rfl <;>
    exact ⟨by decide, _, _, rfl, by decide, by decide, by decide⟩

/-- The statements with names in braces. -/
inductive Braced where
  /-- Names are imported. -/
  | importNames
  /-- The default is imported under a name, and further names are. -/
  | importDefault (name : Text)
  /-- Types are imported. -/
  | importTypes
  /-- Names are exported. -/
  | exportNames
  /-- Types are exported. -/
  | exportTypes
  /-- Variables are bound to parts of a loaded module. -/
  | bound (keyword : Text)
  deriving DecidableEq

namespace Braced

/-- What stands before the opening brace. -/
def start : Braced → Text
  | importNames => "import ".toList
  | importDefault name => "import ".toList ++ name ++ ", ".toList
  | importTypes => "import type ".toList
  | exportNames => "export ".toList
  | exportTypes => "export type ".toList
  | bound keyword => keyword ++ [' ']

/-- What stands between the closing brace and the opening quote. -/
def link : Braced → Text
  | bound _ => " = require(".toList
  | _ => " from ".toList

/-- What stands after the closing quote. -/
def close : Braced → Text
  | bound _ => [')']
  | _ => []

/-- The name or the keyword before the opening brace is one. -/
def IsProper : Braced → Prop
  | importDefault name => IsName name
  | bound keyword => keyword ∈ keywords
  | _ => True

/-- A form that the statement is a piece of. -/
def form : Braced → Pattern
  | importNames => importNamesOverLines
  | importDefault _ => importDefaultOverLines
  | importTypes => importTypesFrom
  | exportNames => exportNamesOverLines
  | exportTypes => exportTypesOverLines
  | bound _ => boundRequireOverLines

/-- The statement, with a text in its braces and a literal. -/
def statement (kind : Braced) (inner literal : Text) : Text :=
  kind.start ++ '\x7b' :: inner ++ '\x7d' :: kind.link ++ literal ++ kind.close

variable {kind : Braced}

/-- What stands before the opening brace is plain and begins no comment. -/
theorem isPlain_start (h : kind.IsProper) : IsPlain kind.start ∧ StartsCode kind.start := by
  have hcode : ∀ w : Text, StartsCode ("import ".toList ++ w) :=
    fun w => ⟨'i', _, rfl, by decide, by decide, by decide⟩
  cases kind with
  | importNames => exact ⟨by decide, hcode []⟩
  | importDefault name =>
    have hname : IsPlain ("import ".toList ++ name ++ ", ".toList) := by
      rw [isPlain_append, isPlain_append]
      exact ⟨⟨by decide, IsName.isPlain h⟩, by decide⟩
    exact ⟨hname, (hcode name).append _⟩
  | importTypes => exact ⟨by decide, hcode "type ".toList⟩
  | exportNames | exportTypes => exact ⟨by decide, 'e', _, rfl, by decide, by decide, by decide⟩
  | bound keyword =>
    obtain ⟨hplain, hstart⟩ := isPlain_of_mem_keywords h
    exact ⟨isPlain_append.mpr ⟨hplain, by decide⟩, hstart.append _⟩

/-- The statement begins with a word character. -/
theorem exists_isWord_start (h : kind.IsProper) :
    ∃ c rest, kind.start = c :: rest ∧ Text.isWord c = true := by
  cases kind with
  | bound keyword =>
    have hall : ∀ keyword ∈ keywords, ∃ c rest, keyword = c :: rest ∧ Text.isWord c = true := by
      simp only [keywords, List.forall_mem_cons]
      exact ⟨⟨_, _, rfl, by decide⟩, ⟨_, _, rfl, by decide⟩, ⟨_, _, rfl, by decide⟩, nofun⟩
    obtain ⟨c, rest, rfl, hc⟩ := hall keyword h
    exact ⟨c, rest ++ [' '], rfl, hc⟩
  | _ => exact ⟨_, _, rfl, by decide⟩

/-- What stands between the closing brace and the opening quote is plain. -/
theorem isPlain_link : IsPlain kind.link := by
  cases kind with
  | bound keyword =>
    have h : IsPlain " = require(".toList := by decide
    exact h
  | _ =>
    have h : IsPlain " from ".toList := by decide
    exact h

/-- What stands after the closing quote is plain. -/
theorem isPlain_close : IsPlain kind.close := by
  cases kind with
  | bound keyword =>
    have h : IsPlain [')'] := by decide
    exact h
  | _ => exact nofun

/-- A statement that imports no types is a piece of a form that may spread over lines. -/
theorem form_mem_textForms (h : kind ≠ importTypes) : kind.form ∈ textForms := by
  cases kind with
  | importTypes => exact absurd rfl h
  | _ => simp [form, textForms]

/-- The parts of the statement. -/
theorem statement_eq : kind.statement inner literal =
    kind.start ++ (('\x7b' :: inner ++ ['\x7d']) ++ (kind.link ++ (literal ++ kind.close))) := by
  simp only [statement, List.append_assoc, List.cons_append, List.nil_append]

/-- The statement is a piece of its form. If it imports types, there must be no line feed in its
braces. -/
theorem describes (h : kind.IsProper) (hinner : '\x7d' ∉ inner)
    (htypes : kind = importTypes → '\n' ∉ inner) (hliteral : IsLiteral reference literal) :
    kind.form.Describes (kind.statement inner literal) [(1, reference)] := by
  have hbraces := describes_braces hinner
  have hquoted : quotedReference.Describes (literal ++ []) [(1, reference)] := by
    rw [List.append_nil]
    exact describes_quotedReference hliteral
  have hfrom : (sequence [blanks, word "from", blanks, quotedReference]).Describes
      (" from ".toList ++ (literal ++ [])) [(1, reference)] :=
    describes_blanks_space.then ((describes_word "from").then (describes_blanks_space.then hquoted))
  rw [statement_eq]
  cases kind with
  | importNames =>
    exact (describes_word "import").then (describes_blanks_space.then (hbraces.then hfrom))
  | importDefault name =>
    have hstart (rest : Text) : (importDefault name).start ++ rest =
        "import ".toList ++ (name ++ (", ".toList ++ rest)) :=
      (List.append_assoc _ _ _).trans (List.append_assoc _ _ _)
    rw [hstart]
    exact (describes_word "import").then (describes_gap.then ((describes_name h).then
      (describes_blanks_nil.then ((describes_one ',').then (describes_blanks_space.then
        (hbraces.then hfrom))))))
  | importTypes =>
    have hfeed : '\n' ∉ '\x7b' :: inner ++ ['\x7d'] := by
      simp only [List.cons_append, List.mem_cons, List.mem_append, not_or]
      exact ⟨by decide, htypes rfl, by decide⟩
    have hall := describes_importTypesFrom hfeed hliteral
    rw [← List.append_nil literal] at hall
    exact hall
  | exportNames =>
    exact (describes_word "export").then (describes_blanks_space.then (hbraces.then hfrom))
  | exportTypes =>
    exact (describes_word "export").then (describes_gap.then ((describes_word "type").then
      (describes_blanks_space.then (hbraces.then hfrom))))
  | bound keyword =>
    have hstart (rest : Text) : (bound keyword).start ++ rest = keyword ++ ([' '] ++ rest) :=
      List.append_assoc _ _ _
    rw [hstart]
    exact (describes_variableKeyword h).then (describes_blanks_space.then (hbraces.then
      (describes_blanks_space.then ((describes_one '=').then (describes_blanks_space.then
        (describes_callWith "require" hliteral))))))

/-- The statement quotes its reference, and nothing else is quoted. -/
theorem quoting (h : kind.IsProper) (hinner : QuoteFree inner)
    (hliteral : IsLiteral reference literal) {after : Text} (hafter : QuoteFree after) :
    Quoting [reference] (kind.statement inner literal ++ after) := by
  have hbefore : QuoteFree (kind.start ++ ('\x7b' :: inner ++ '\x7d' :: kind.link)) := by
    simp only [quoteFree_append, quoteFree_cons, List.cons_append]
    exact ⟨(isPlain_start h).1.quoteFree, by decide, hinner, by decide, isPlain_link.quoteFree⟩
  have hend : QuoteFree (kind.close ++ after) :=
    quoteFree_append.mpr ⟨isPlain_close.quoteFree, hafter⟩
  have hall := Quoting.around hbefore hliteral hend
  simpa only [statement, List.append_assoc, List.cons_append] using hall

/-- The form of the statement finds its reference in a text that begins with it, if nothing else is
quoted there. -/
theorem mem_found (h : kind.IsProper) (hfree : QuoteFree inner) (hinner : '\x7d' ∉ inner)
    (htypes : kind = importTypes → '\n' ∉ inner) (hliteral : IsLiteral reference literal)
    {after : Text} (hafter : QuoteFree after) :
    reference ∈ found kind.form (kind.statement inner literal ++ after) := by
  have hform : kind.form ∈ effectForm :: (lineForms ++ textForms) ∧
      kind.form.isRegular = true := by
    cases kind <;> exact ⟨by simp [form, lineForms, textForms], rfl⟩
  have hne : kind.statement inner literal ++ after ≠ [] := by simp [statement]
  exact mem_found_of_ways hform.1 (.refl _) hne
    (ways_ne_nil hform.2 (describes h hinner htypes hliteral) rfl) (quoting h hfree hliteral hafter)

end Braced

/-- The statements without braces. -/
inductive Bare where
  /-- The default is imported under a name. -/
  | importDefault (name : Text)
  /-- Everything is imported under one name. -/
  | importAll (name : Text)
  /-- The default is imported under a name, and everything under another. -/
  | importDefaultAll (name all : Text)
  /-- A default type is imported under a name. -/
  | importType (name : Text)
  /-- A module is imported for its effect alone. -/
  | importEffect
  /-- A variable is bound to a loaded module. -/
  | bound (keyword name : Text)
  /-- A variable is bound to the first part of a loaded module. -/
  | boundFirst (keyword name : Text)
  /-- A module is loaded. -/
  | load
  /-- A module is loaded at run time. -/
  | importCall
  /-- Everything is exported. -/
  | exportAll
  /-- Everything is exported under one name. -/
  | exportAllAs (name : Text)
  deriving DecidableEq

namespace Bare

/-- What stands before the opening quote. -/
def start : Bare → Text
  | importDefault name => "import ".toList ++ name ++ " from ".toList
  | importAll name => "import * as ".toList ++ name ++ " from ".toList
  | importDefaultAll name all =>
    "import ".toList ++ name ++ ", * as ".toList ++ all ++ " from ".toList
  | importType name => "import type ".toList ++ name ++ " from ".toList
  | importEffect => "import ".toList
  | bound keyword name => keyword ++ [' '] ++ name ++ " = require(".toList
  | boundFirst keyword name => keyword ++ " [".toList ++ name ++ "] = require(".toList
  | load => "require(".toList
  | importCall => "import(".toList
  | exportAll => "export * from ".toList
  | exportAllAs name => "export * as ".toList ++ name ++ " from ".toList

/-- What stands after the closing quote. -/
def close : Bare → Text
  | bound _ _ | boundFirst _ _ | load | importCall => [')']
  | _ => []

/-- The names and the keyword before the opening quote are such. -/
def IsProper : Bare → Prop
  | importDefault name | importAll name | importType name | exportAllAs name => IsName name
  | importDefaultAll name all => IsName name ∧ IsName all
  | bound keyword name | boundFirst keyword name => keyword ∈ keywords ∧ IsName name
  | _ => True

/-- A form that the statement is a piece of. -/
def form : Bare → Pattern
  | importDefault _ | importAll _ | importDefaultAll _ _ => importFrom
  | importType _ => importTypesFrom
  | importEffect => effectForm
  | bound _ _ | boundFirst _ _ => boundRequire
  | load => freeRequire
  | importCall => Reference.importCall
  | exportAll => Reference.exportAll
  | exportAllAs _ => Reference.exportAllAs

/-- The statement with a literal. -/
def statement (kind : Bare) (literal : Text) : Text := kind.start ++ literal ++ kind.close

variable {kind : Bare}

/-- What stands before the opening quote is plain and begins no comment. -/
theorem isPlain_start (h : kind.IsProper) : IsPlain kind.start ∧ StartsCode kind.start := by
  have himport : ∀ w : Text, StartsCode ("import".toList ++ w) :=
    fun w => ⟨'i', _, rfl, by decide, by decide, by decide⟩
  have hexport : ∀ w : Text, StartsCode ("export".toList ++ w) :=
    fun w => ⟨'e', _, rfl, by decide, by decide, by decide⟩
  have hfrom {first name : Text} (hfirst : IsPlain first) (hname : IsName name) :
      IsPlain (first ++ name ++ " from ".toList) :=
    isPlain_append.mpr ⟨isPlain_append.mpr ⟨hfirst, hname.isPlain⟩, by decide⟩
  cases kind with
  | importDefault name => exact ⟨hfrom (by decide) h, himport _⟩
  | importAll name => exact ⟨hfrom (by decide) h, himport _⟩
  | importDefaultAll name all =>
    have hfirst : IsPlain ("import ".toList ++ name ++ ", * as ".toList) :=
      isPlain_append.mpr ⟨isPlain_append.mpr ⟨by decide, h.1.isPlain⟩, by decide⟩
    exact ⟨hfrom hfirst h.2, himport _⟩
  | importType name => exact ⟨hfrom (by decide) h, himport _⟩
  | importEffect => exact ⟨by decide, himport [' ']⟩
  | bound keyword name =>
    obtain ⟨hplain, hstart⟩ := isPlain_of_mem_keywords h.1
    have hfirst : IsPlain (keyword ++ [' '] ++ name) :=
      isPlain_append.mpr ⟨isPlain_append.mpr ⟨hplain, by decide⟩, h.2.isPlain⟩
    exact ⟨isPlain_append.mpr ⟨hfirst, by decide⟩, ((hstart.append _).append _).append _⟩
  | boundFirst keyword name =>
    obtain ⟨hplain, hstart⟩ := isPlain_of_mem_keywords h.1
    have hfirst : IsPlain (keyword ++ " [".toList ++ name) :=
      isPlain_append.mpr ⟨isPlain_append.mpr ⟨hplain, by decide⟩, h.2.isPlain⟩
    exact ⟨isPlain_append.mpr ⟨hfirst, by decide⟩, ((hstart.append _).append _).append _⟩
  | load => exact ⟨by decide, 'r', _, rfl, by decide, by decide, by decide⟩
  | importCall => exact ⟨by decide, himport ['(']⟩
  | exportAll => exact ⟨by decide, hexport " * from ".toList⟩
  | exportAllAs name => exact ⟨hfrom (by decide) h, hexport _⟩

/-- What stands after the closing quote is plain. -/
theorem isPlain_close : IsPlain kind.close := by
  have hclose : IsPlain [')'] := by decide
  cases kind with
  | bound keyword name | boundFirst keyword name => exact hclose
  | load | importCall => exact hclose
  | _ => exact nofun

/-- The statement is a piece of its form, unless it loads a module without binding it. -/
theorem describes (h : kind.IsProper) (hkind : kind ≠ load)
    (hliteral : IsLiteral reference literal) :
    kind.form.Describes (kind.statement literal) [(1, reference)] := by
  have hquoted := describes_quotedReference hliteral
  have hfrom : fromReference.Describes ("from ".toList ++ literal) [(1, reference)] :=
    (describes_word "from").then (describes_gap.then hquoted)
  cases kind with
  | importDefault name =>
    have htext : (importDefault name).statement literal =
        "import ".toList ++ ((name ++ ([] ++ [' '])) ++ ("from ".toList ++ literal)) := by
      unfold statement start close
      simp
    rw [htext]
    exact describes_importFrom describes_gap (describes_binding_name h) describes_many_nil
      describes_gap describes_gap hliteral
  | importAll name =>
    have htext : (importAll name).statement literal = "import ".toList ++
        (("* as ".toList ++ name ++ ([] ++ [' '])) ++ ("from ".toList ++ literal)) := by
      unfold statement start close
      simp
    rw [htext]
    exact describes_importFrom describes_gap (describes_binding_all describes_gap describes_gap h)
      describes_many_nil describes_gap describes_gap hliteral
  | importDefaultAll name all =>
    have htext : (importDefaultAll name all).statement literal = "import ".toList ++
        ((name ++ ((", ".toList ++ ("* as ".toList ++ all)) ++ [' '])) ++
          ("from ".toList ++ literal)) := by
      unfold statement start close
      simp
    have hmore : (sequence [blanks, char (.one ','), blanks, binding]).Describes
        (", ".toList ++ ("* as ".toList ++ all)) [] :=
      describes_blanks_nil.then ((describes_one ',').then
        (describes_blanks_space.then (describes_binding_all describes_gap describes_gap h.2)))
    rw [htext]
    exact describes_importFrom describes_gap (describes_binding_name h.1) hmore.many
      describes_gap describes_gap hliteral
  | importType name =>
    have htext : (importType name).statement literal =
        "import type ".toList ++ (name ++ (" from ".toList ++ literal)) := by
      unfold statement start close
      simp
    rw [htext]
    exact describes_importTypesFrom (IsName.not_mem_lineFeed h) hliteral
  | importEffect =>
    have htext : importEffect.statement literal = "import ".toList ++ literal := List.append_nil _
    rw [htext]
    exact (describes_word "import").then (describes_gap.then hquoted)
  | bound keyword name =>
    have htext : (bound keyword name).statement literal =
        keyword ++ ([' '] ++ (name ++ (" = require(".toList ++ (literal ++ [')'])))) := by
      unfold statement start close
      simp
    rw [htext]
    exact describes_boundRequire h.1 describes_gap (describes_name h.2).left.right
      describes_blanks_space describes_blanks_space hliteral
  | boundFirst keyword name =>
    have htext : (boundFirst keyword name).statement literal = keyword ++
        ([' '] ++ (('[' :: name ++ [']']) ++ (" = require(".toList ++ (literal ++ [')'])))) := by
      unfold statement start close
      simp
    rw [htext]
    exact describes_boundRequire h.1 describes_gap (describes_brackets h.2).right.right
      describes_blanks_space describes_blanks_space hliteral
  | load => exact absurd rfl hkind
  | importCall =>
    have htext : importCall.statement literal = "import".toList ++ '(' :: (literal ++ [')']) :=
      List.append_assoc _ _ _
    rw [htext]
    exact describes_callWith "import" hliteral
  | exportAll =>
    have htext : exportAll.statement literal = "export * ".toList ++ ("from ".toList ++ literal) :=
      List.append_nil _
    rw [htext]
    exact (describes_word "export").then (describes_gap.then ((describes_one '*').then
      (describes_gap.then hfrom)))
  | exportAllAs name =>
    have htext : (exportAllAs name).statement literal =
        "export * as ".toList ++ (name ++ ([' '] ++ ("from ".toList ++ literal))) := by
      unfold statement start close
      simp
    rw [htext]
    exact (describes_word "export").then (describes_gap.then ((describes_one '*').then
      (describes_gap.then ((describes_word "as").then (describes_gap.then
        ((describes_name h).then (describes_gap.then hfrom)))))))

/-- The form of a statement that does not import for its effect alone is one on one line. -/
theorem form_mem_lineForms (h : kind ≠ importEffect) : kind.form ∈ lineForms := by
  cases kind with
  | importEffect => exact absurd rfl h
  | _ => simp [form, lineForms]

/-- At the beginning of a text a call of `require` needs no character before it. -/
theorem ways_freeRequire_ne_nil {text : Text} (h : ways (callWith "require") (.start text) ≠ []) :
    ways freeRequire (.start text) ≠ [] := by
  obtain ⟨last, hlast⟩ := List.exists_mem_of_ne_nil _ h
  exact List.ne_nil_of_mem (mem_ways_freeRequire_iff.mpr (Or.inl ⟨rfl, hlast⟩))

/-- The form of the statement has a way from where it begins a text. -/
theorem ways_form_ne_nil (h : kind.IsProper) (hliteral : IsLiteral reference literal)
    (rest : Text) : ways kind.form (.start (kind.statement literal ++ rest)) ≠ [] := by
  by_cases hkind : kind = load
  · subst hkind
    exact ways_freeRequire_ne_nil
      (ways_ne_nil (by decide) (describes_callWith "require" hliteral) rfl)
  · have hregular : kind.form.isRegular = true := by
      cases kind with
      | load => exact absurd rfl hkind
      | _ => rfl
    exact ways_ne_nil hregular (describes h hkind hliteral) rfl

/-- The statement quotes its reference, and nothing else is quoted. -/
theorem quoting (h : kind.IsProper) (hliteral : IsLiteral reference literal) {after : Text}
    (hafter : QuoteFree after) : Quoting [reference] (kind.statement literal ++ after) := by
  have hend : QuoteFree (kind.close ++ after) :=
    quoteFree_append.mpr ⟨isPlain_close.quoteFree, hafter⟩
  have hall := Quoting.around (isPlain_start h).1.quoteFree hliteral hend
  simpa only [statement, List.append_assoc] using hall

/-- The form of the statement finds its reference in a text that begins with it, if nothing else is
quoted there. -/
theorem mem_found (h : kind.IsProper) (hliteral : IsLiteral reference literal) {after : Text}
    (hafter : QuoteFree after) : reference ∈ found kind.form (kind.statement literal ++ after) := by
  have hform : kind.form ∈ effectForm :: (lineForms ++ textForms) := by
    by_cases heffect : kind = importEffect
    · rw [heffect]
      exact List.mem_cons_self
    · exact List.mem_cons_of_mem _ (List.mem_append_left _ (form_mem_lineForms heffect))
  have hne : kind.statement literal ++ after ≠ [] := by
    obtain ⟨c, rest, hstart, -⟩ := (isPlain_start h).2
    simp [statement, hstart]
  exact mem_found_of_ways hform (.refl _) hne (ways_form_ne_nil h hliteral after) (quoting h hliteral hafter)

/-- The reference of the statement is found on its line, unless the word `from` stands in a
reference that is imported for its effect. -/
theorem mem_onLine (h : kind.IsProper) (hliteral : IsLiteral reference literal) {last : Text}
    (hlast : IsEnd last) (heffect : kind = importEffect → ¬" from ".toList <:+: reference) :
    reference ∈ onLine (kind.statement literal ++ last) := by
  have hfound := mem_found h hliteral hlast.isPlain.quoteFree
  rw [onLine, List.mem_append, List.mem_flatMap]
  by_cases hkind : kind = importEffect
  · subst hkind
    refine Or.inr ?_
    rw [if_neg]
    · exact hfound
    · intro hincludes
      have hfrom : QuoteFree " from ".toList := by decide
      obtain @⟨opening, closing, hopening, -, -, hclosing⟩ := hliteral
      have htext : importEffect.statement (opening :: reference ++ [closing]) ++ last =
          "import ".toList ++ opening :: (reference ++ closing :: last) := by
        change "import ".toList ++ (opening :: reference ++ [closing]) ++ [] ++ last = _
        simp only [List.append_assoc, List.cons_append, List.nil_append]
      rw [htext] at hincludes
      rcases Text.isInfix_append_cons (fun hmem => hfrom _ hmem hopening)
        (Text.includes_iff.mp hincludes) with hin | hin
      · exact absurd hin (by decide)
      · rcases Text.isInfix_append_cons (fun hmem => hfrom _ hmem hclosing) hin with hin | hin
        · exact heffect rfl hin
        · rcases hlast with rfl | rfl <;> exact absurd hin (by decide)
  · exact Or.inl ⟨kind.form, form_mem_lineForms hkind, hfound⟩

end Bare

end SourceLoom.Reference
