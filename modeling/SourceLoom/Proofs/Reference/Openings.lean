import SourceLoom.Proofs.Reference.Statements
import SourceLoom.Proofs.Text.Words

/-!
# What stands before an opening quote

What a form finds tells more about the text before its opening quote than the word right before
it: which word begins the form, and which words, names and marks lie between that word and the
quote. Names are word characters alone. Only what stands in braces or in brackets, and what is
passed over in an import of types, may have other characters.
-/

namespace SourceLoom.Reference

open Pattern

open Text (IsSolid wordsOf)

variable {piece text : Text} {memory : Memory}

/-- A text is a gap: it has a character, and all are blank. -/
def IsGap (text : Text) : Prop := IsBlank text ∧ text ≠ []

/-- A character of names, of blanks, or one of the two marks of bindings without braces. -/
def IsBare (c : Char) : Prop := Text.isWord c = true ∨ Text.isBlank c = true ∨ c = ',' ∨ c = '*'

/-- Before its first opening brace a text has only bare characters. -/
def StartsBare (text : Text) : Prop := ∀ c ∈ text.takeWhile (· ≠ '\x7b'), IsBare c

/-- The words before an opening brace. -/
def braceWords : List Text :=
  ["import".toList, "export".toList, "type".toList, "const".toList, "let".toList, "var".toList]

/-- What may stand before the opening quote of a reference that a form finds, told by its last words
or by the words before a mark in it. The first of these words may be the end of a longer one. -/
inductive Opens (before : Text) : Prop
  /-- An import without bindings. -/
  | plain {front : List Text} {first : Text} :
      wordsOf before = front ++ [first ++ "import".toList, "from".toList] → Opens before
  /-- An import with bindings. -/
  | bindings {front : List Text} {first inner : Text} : inner <:+: before → StartsBare inner →
      wordsOf before = front ++ (first ++ "import".toList) :: (wordsOf inner ++ ["from".toList]) →
        Opens before
  /-- An import of types. -/
  | types {front more : List Text} {first : Text} :
      wordsOf before =
        front ++ (first ++ "import".toList) :: "type".toList :: (more ++ ["from".toList]) →
          Opens before
  /-- An import for its effect alone. -/
  | effect {front : List Text} {first : Text} :
      wordsOf before = front ++ [first ++ "import".toList] → Opens before
  /-- An export of everything. -/
  | all {front : List Text} : wordsOf before = front ++ [['*'], "from".toList] → Opens before
  /-- An export of everything under one name. -/
  | allAs {front : List Text} {name : Text} : IsName name →
      wordsOf before = front ++ [name, "from".toList] → Opens before
  /-- A word and an opening brace, and anything after it. -/
  | braces {front : List Text} {first word start rest : Text} : word ∈ braceWords →
      before = start ++ '\x7b' :: rest → wordsOf start = front ++ [first ++ word] → Opens before
  /-- An import of a default, a comma and an opening brace, and anything after it. -/
  | defaultBraces {front : List Text} {first name gap start rest : Text} : IsName name →
      IsBlank gap → before = start ++ '\x7b' :: rest →
        wordsOf start = front ++ (first ++ "import".toList) :: wordsOf (name ++ (gap ++ [','])) →
          Opens before
  /-- Variables before an equals sign, and anything after it. -/
  | bound {start target rest : Text} : before = start ++ '=' :: rest →
      (IsName target ∨ '\x7b' ∈ target ∨ '[' ∈ target) → target <:+: start →
        (IsName target → ∃ front, wordsOf start = front ++ [target]) → Opens before
  /-- A call of `import`. -/
  | call {front : List Text} {first start rest : Text} : before = start ++ '(' :: rest →
      wordsOf start = front ++ [first ++ "import".toList] → Opens before
  /-- A call of `require` at the beginning of the text, or after a character other than an equals
  sign. -/
  | freeCall {start gap rest : Text} : before = start ++ "require".toList ++ gap ++ '(' :: rest →
      IsBlank gap → (start = [] ∨ ∃ front c, start = front ++ [c] ∧ c ≠ '=') → Opens before

/-- What is a piece of the place of a gap is a gap. -/
theorem isGap_of_describes (h : gap.Describes piece memory) : IsGap piece :=
  (describes_gap_iff.mp h).2

/-- What is a piece of the place of any blanks is blank. -/
theorem isBlank_of_describes (h : blanks.Describes piece memory) : IsBlank piece :=
  (describes_blanks_iff.mp h).2

section Bindings

/-- A text of bare characters starts bare. -/
theorem startsBare_of_forall (h : ∀ c ∈ text, IsBare c) : StartsBare text :=
  fun c hc => h c ((List.takeWhile_sublist _).subset hc)

/-- Two texts that start bare do so together. -/
theorem StartsBare.append {s t : Text} (hs : StartsBare s) (ht : StartsBare t) :
    StartsBare (s ++ t) := by
  intro c hc
  rw [List.takeWhile_append] at hc
  split at hc
  · rename_i hall
    rcases List.mem_append.mp hc with hc | hc
    · refine hs c ?_
      rwa [← (List.takeWhile_sublist _).eq_of_length hall] at hc
    · exact ht c hc
  · exact hs c hc

/-- Blanks start bare. -/
theorem IsBlank.startsBare (h : IsBlank text) : StartsBare text :=
  startsBare_of_forall fun c hc => Or.inr (Or.inl (h c hc))

/-- A name starts bare. -/
theorem IsName.startsBare (h : IsName text) : StartsBare text :=
  startsBare_of_forall fun c hc => Or.inl (h.2 c hc)

/-- A binding starts bare. -/
theorem startsBare_of_binding (h : binding.Describes piece memory) : StartsBare piece := by
  rcases h with hbraces | hall | hname
  · obtain ⟨-, inner, -, rfl⟩ := describes_braces_iff.mp hbraces
    intro c hc
    cases hc
  · obtain ⟨_, _, hstar, h₁, rfl⟩ := (describes_seq_iff (by decide)).mp hall
    obtain ⟨first, _, hfirst, h₂, rfl⟩ := (describes_seq_iff (by decide)).mp h₁
    obtain ⟨_, _, has, h₃, rfl⟩ := (describes_seq_iff (by decide)).mp h₂
    obtain ⟨second, name, hsecond, hname, rfl⟩ := (describes_seq_iff (by decide)).mp h₃
    obtain ⟨rfl, -⟩ := describes_one_iff.mp hstar
    obtain ⟨rfl, -⟩ := describes_word_iff.mp has
    have hmark : StartsBare ['*'] :=
      startsBare_of_forall (List.forall_mem_singleton.mpr (Or.inr (Or.inr (Or.inr rfl))))
    have hword : IsName "as".toList := by decide
    exact hmark.append ((isGap_of_describes hfirst |>.1).startsBare.append (hword.startsBare.append
      ((isGap_of_describes hsecond |>.1).startsBare.append (describes_name_iff.mp hname).2.startsBare)))
  · exact (describes_name_iff.mp hname).2.startsBare

/-- Bindings with commas between them start bare. -/
theorem startsBare_of_bindings {more : Text} (h : binding.Describes piece [])
    (hmore : (many (sequence [blanks, char (.one ','), blanks, binding])).Describes more []) :
    StartsBare (piece ++ more) := by
  refine (startsBare_of_binding h).append ?_
  obtain ⟨-, pieces, hpieces, rfl, -, -⟩ := hmore
  induction pieces with
  | nil => exact startsBare_of_forall nofun
  | cons round pieces ih =>
    obtain ⟨hround, hpieces⟩ := List.forall_mem_cons.mp hpieces
    refine StartsBare.append ?_ (ih hpieces)
    obtain ⟨first, _, hfirst, h₁, rfl⟩ := (describes_seq_iff (by decide)).mp hround
    obtain ⟨_, _, hcomma, h₂, rfl⟩ := (describes_seq_iff (by decide)).mp h₁
    obtain ⟨second, next, hsecond, hnext, rfl⟩ := (describes_seq_iff (by decide)).mp h₂
    obtain ⟨rfl, -⟩ := describes_one_iff.mp hcomma
    have hmark : StartsBare [','] :=
      startsBare_of_forall (List.forall_mem_singleton.mpr (Or.inr (Or.inr (Or.inl rfl))))
    exact (isBlank_of_describes hfirst).startsBare.append (hmark.append
      ((isBlank_of_describes hsecond).startsBare.append (startsBare_of_binding hnext)))

end Bindings

/-- A name is a word. -/
theorem IsName.isSolid (h : IsName text) : IsSolid text :=
  ⟨h.1, fun c hc => Text.not_isBlank_of_isWord (h.2 c hc)⟩

/-- The words before an opening brace are words. -/
theorem isSolid_of_mem_braceWords (h : text ∈ braceWords) : IsSolid text :=
  (by decide : ∀ word ∈ braceWords, IsSolid word) text h

/-- A keyword may come before an opening brace. -/
theorem mem_braceWords_of_mem_keywords (h : text ∈ keywords) : text ∈ braceWords :=
  (by decide : ∀ word ∈ keywords, word ∈ braceWords) text h

/-- In every piece of a pattern, wherever it stands, what stands before the literal opens it. -/
def HasOpening (p : Pattern) : Prop :=
  ∀ piece memory, p.Describes piece memory → ∃ head reference literal after,
    piece = head ++ (literal ++ after) ∧ IsLiteral reference literal ∧
      memory = [(1, reference)] ∧ ∀ start, Opens (start ++ head)

/-- More may come first. -/
theorem HasOpening.seq {p q : Pattern} (hp : p.isSilent = true) (hq : HasOpening q) :
    HasOpening (.seq p q) := by
  intro piece memory h
  obtain ⟨first, second, -, hsecond, rfl⟩ := (describes_seq_iff hp).mp h
  obtain ⟨head, reference, literal, after, rfl, hliteral, rfl, hopens⟩ := hq _ _ hsecond
  refine ⟨first ++ head, reference, literal, after, (List.append_assoc ..).symm, hliteral, rfl, ?_⟩
  intro start
  rw [← List.append_assoc]
  exact hopens (start ++ first)

/-- The word `from`, a gap and a literal. -/
theorem exists_of_fromReference (h : fromReference.Describes piece memory) :
    ∃ gap reference literal, piece = "from".toList ++ (gap ++ literal) ∧ IsGap gap ∧
      IsLiteral reference literal ∧ memory = [(1, reference)] := by
  obtain ⟨_, _, hword, h₁, rfl⟩ := (describes_seq_iff (by decide)).mp h
  obtain ⟨gap, literal, hgap, hquoted, rfl⟩ := (describes_seq_iff (by decide)).mp h₁
  obtain ⟨rfl, -⟩ := describes_word_iff.mp hword
  obtain ⟨reference, hliteral, rfl⟩ := describes_quotedReference_iff.mp hquoted
  exact ⟨gap, reference, literal, rfl, isGap_of_describes hgap, hliteral, rfl⟩

/-- A word, an opening brace after blanks, and a leading pattern. -/
theorem HasOpening.braces {p q b r : Pattern}
    (hp : p.isSilent = true ∧ ∀ piece, p.Describes piece [] → piece ∈ braceWords)
    (hq : q.isSilent = true ∧ ∀ piece, q.Describes piece [] → IsBlank piece)
    (hb : b.isSilent = true ∧ ∀ piece, b.Describes piece [] → ∃ rest, piece = '\x7b' :: rest)
    (hr : isLeading r = true) : HasOpening (.seq p (.seq q (.seq b r))) := by
  intro piece memory h
  obtain ⟨word, _, hword, h₁, rfl⟩ := (describes_seq_iff hp.1).mp h
  obtain ⟨first, _, hfirst, h₂, rfl⟩ := (describes_seq_iff hq.1).mp h₁
  obtain ⟨_, second, hbrace, h₃, rfl⟩ := (describes_seq_iff hb.1).mp h₂
  obtain ⟨rest, rfl⟩ := hb.2 _ hbrace
  obtain ⟨before, reference, literal, after, rfl, -, hliteral, rfl⟩ := holds_of_describes hr h₃
  refine ⟨word ++ first ++ '\x7b' :: (rest ++ before), reference, literal, after, ?_, hliteral,
    rfl, fun start => ?_⟩
  · simp only [List.append_assoc, List.cons_append]
  · have hmem := hp.2 _ hword
    obtain ⟨front, last, hwords⟩ :=
      Text.exists_wordsOf_blanks (isSolid_of_mem_braceWords hmem) (hq.2 _ hfirst) start
    exact .braces hmem (List.append_assoc _ _ _).symm hwords

/-- The call of a loader. -/
theorem exists_of_callWith {loader : String} (hsilent : (word loader).isSilent = true)
    (h : (callWith loader).Describes piece memory) :
    ∃ first second reference literal after,
      piece = loader.toList ++ first ++ '(' :: second ++ (literal ++ after) ∧ IsBlank first ∧
        IsLiteral reference literal ∧ memory = [(1, reference)] := by
  obtain ⟨_, _, hword, h₁, rfl⟩ := (describes_seq_iff hsilent).mp h
  obtain ⟨first, _, hfirst, h₂, rfl⟩ := (describes_seq_iff (by decide)).mp h₁
  obtain ⟨_, _, hopen, h₃, rfl⟩ := (describes_seq_iff (by decide)).mp h₂
  obtain ⟨second, _, hsecond, h₄, rfl⟩ := (describes_seq_iff (by decide)).mp h₃
  obtain ⟨literal, old, after, new, hquoted, hrest, rfl, rfl⟩ := h₄
  have hnew := memory_eq_nil (by decide) hrest
  obtain ⟨rfl, -⟩ := describes_word_iff.mp hword
  obtain ⟨rfl, -⟩ := describes_one_iff.mp hopen
  obtain ⟨reference, hliteral, rfl⟩ := describes_quotedReference_iff.mp hquoted
  refine ⟨first, second, reference, literal, after, ?_, isBlank_of_describes hfirst, hliteral, ?_⟩
  · simp only [List.append_assoc, List.cons_append, List.nil_append]
  · rw [hnew]
    rfl

section Forms

/-- What is a piece of the place of a keyword is one. -/
theorem mem_keywords_of_describes (h : variableKeyword.Describes piece memory) :
    piece ∈ keywords := by
  rcases h with h | h | h
  all_goals
    obtain ⟨rfl, -⟩ := describes_word_iff.mp h
    decide

/-- Variables are a name, or they are in braces or in brackets. -/
theorem target_of_describes
    (h : (oneOf braces [name, seq (char (.one '[')) (upTo ']')]).Describes piece memory) :
    IsName piece ∨ '\x7b' ∈ piece ∨ '[' ∈ piece := by
  rcases h with h | h | h
  · obtain ⟨-, inner, -, rfl⟩ := describes_braces_iff.mp h
    exact Or.inr (Or.inl List.mem_cons_self)
  · exact Or.inl (describes_name_iff.mp h).2
  · obtain ⟨_, rest, hbracket, -, rfl⟩ := (describes_seq_iff (by decide)).mp h
    obtain ⟨rfl, -⟩ := describes_one_iff.mp hbracket
    exact Or.inr (Or.inr List.mem_cons_self)

/-- Imports with and without bindings. -/
theorem hasOpening_importFrom : HasOpening importFrom := by
  intro piece memory h
  obtain ⟨_, _, hword, h₁, rfl⟩ := (describes_seq_iff (by decide)).mp h
  obtain ⟨first, _, hfirst, h₂, rfl⟩ := (describes_seq_iff (by decide)).mp h₁
  obtain ⟨inner, _, hinner, h₃, rfl⟩ := (describes_seq_iff (by decide)).mp h₂
  obtain ⟨third, reference, literal, rfl, hthird, hliteral, rfl⟩ := exists_of_fromReference h₃
  obtain ⟨rfl, -⟩ := describes_word_iff.mp hword
  have himport : IsSolid "import".toList := by decide
  have hfrom : IsSolid "from".toList := by decide
  have hgap := isGap_of_describes hfirst
  rcases describes_optional hinner with rfl | hinner
  · refine ⟨"import".toList ++ (first ++ ("from".toList ++ third)), reference, literal, [], ?_,
      hliteral, rfl, fun start => ?_⟩
    · simp only [List.append_assoc, List.append_nil, List.nil_append]
    · obtain ⟨front, last, hwords⟩ :=
        Text.exists_wordsOf_gap himport hgap.1 hgap.2 start ("from".toList ++ third)
      rw [Text.wordsOf_word_blanks hfrom hthird.1] at hwords
      exact .plain hwords
  · obtain ⟨names, _, hnames, h₄, rfl⟩ := (describes_seq_iff (by decide)).mp hinner
    obtain ⟨more, second, hmore, hsecond, rfl⟩ := (describes_seq_iff (by decide)).mp h₄
    have hbetween := isGap_of_describes hsecond
    refine ⟨"import".toList ++ (first ++ ((names ++ more) ++ (second ++ ("from".toList ++ third)))),
      reference, literal, [], ?_, hliteral, rfl, fun start => ?_⟩
    · simp only [List.append_assoc, List.append_nil]
    · obtain ⟨front, last, hwords⟩ := Text.exists_wordsOf_gap himport hgap.1 hgap.2 start
        ((names ++ more) ++ (second ++ ("from".toList ++ third)))
      rw [Text.wordsOf_append_gap hbetween.1 hbetween.2,
        Text.wordsOf_word_blanks hfrom hthird.1] at hwords
      refine .bindings ⟨start ++ "import".toList ++ first, second ++ ("from".toList ++ third), ?_⟩
        (startsBare_of_bindings hnames hmore) hwords
      simp only [List.append_assoc]

/-- Imports for their effect alone. -/
theorem hasOpening_effectForm : HasOpening effectForm := by
  intro piece memory h
  obtain ⟨_, _, hword, h₁, rfl⟩ := (describes_seq_iff (by decide)).mp h
  obtain ⟨first, literal, hfirst, hquoted, rfl⟩ := (describes_seq_iff (by decide)).mp h₁
  obtain ⟨rfl, -⟩ := describes_word_iff.mp hword
  obtain ⟨reference, hliteral, rfl⟩ := describes_quotedReference_iff.mp hquoted
  refine ⟨"import".toList ++ first, reference, literal, [], ?_, hliteral, rfl, fun start => ?_⟩
  · simp only [List.append_assoc, List.append_nil]
  · have himport : IsSolid "import".toList := by decide
    obtain ⟨front, last, hwords⟩ :=
      Text.exists_wordsOf_blanks himport (isGap_of_describes hfirst).1 start
    exact .effect hwords

/-- Imports of types. -/
theorem hasOpening_importTypesFrom : HasOpening importTypesFrom := by
  intro piece memory h
  obtain ⟨_, _, hword, h₁, rfl⟩ := (describes_seq_iff (by decide)).mp h
  obtain ⟨first, _, hfirst, h₂, rfl⟩ := (describes_seq_iff (by decide)).mp h₁
  obtain ⟨_, _, htype, h₃, rfl⟩ := (describes_seq_iff (by decide)).mp h₂
  obtain ⟨second, _, hsecond, h₄, rfl⟩ := (describes_seq_iff (by decide)).mp h₃
  obtain ⟨inner, _, -, h₅, rfl⟩ := (describes_seq_iff (by decide)).mp h₄
  obtain ⟨third, _, hthird, h₆, rfl⟩ := (describes_seq_iff (by decide)).mp h₅
  obtain ⟨fourth, reference, literal, rfl, hfourth, hliteral, rfl⟩ := exists_of_fromReference h₆
  obtain ⟨rfl, -⟩ := describes_word_iff.mp hword
  obtain ⟨rfl, -⟩ := describes_word_iff.mp htype
  refine ⟨"import".toList ++ (first ++ ("type".toList ++ (second ++ (inner ++ (third ++
      ("from".toList ++ fourth)))))), reference, literal, [], ?_, hliteral, rfl, fun start => ?_⟩
  · simp only [List.append_assoc, List.append_nil]
  · have hgap := isGap_of_describes hfirst
    have hbefore := isGap_of_describes hsecond
    have hbehind := isGap_of_describes hthird
    have himport : IsSolid "import".toList := by decide
    obtain ⟨front, last, hwords⟩ := Text.exists_wordsOf_gap himport hgap.1 hgap.2 start
      ("type".toList ++ (second ++ (inner ++ (third ++ ("from".toList ++ fourth)))))
    rw [Text.wordsOf_word_gap (by decide) hbefore.1 hbefore.2,
      Text.wordsOf_append_gap hbehind.1 hbehind.2,
      Text.wordsOf_word_blanks (by decide) hfourth.1] at hwords
    exact .types hwords

/-- Variables bound to a loaded module. -/
theorem hasOpening_boundRequire : HasOpening boundRequire := by
  intro piece memory h
  obtain ⟨keyword, _, hkeyword, h₁, rfl⟩ := (describes_seq_iff (by decide)).mp h
  obtain ⟨first, _, hfirst, h₂, rfl⟩ := (describes_seq_iff (by decide)).mp h₁
  obtain ⟨target, _, htarget, h₃, rfl⟩ := (describes_seq_iff (by decide)).mp h₂
  obtain ⟨second, _, hsecond, h₄, rfl⟩ := (describes_seq_iff (by decide)).mp h₃
  obtain ⟨_, _, hequals, h₅, rfl⟩ := (describes_seq_iff (by decide)).mp h₄
  obtain ⟨third, _, -, h₆, rfl⟩ := (describes_seq_iff (by decide)).mp h₅
  obtain ⟨fourth, fifth, reference, literal, after, rfl, -, hliteral, rfl⟩ :=
    exists_of_callWith (by decide) h₆
  obtain ⟨rfl, -⟩ := describes_one_iff.mp hequals
  refine ⟨keyword ++ (first ++ (target ++ second)) ++
    '=' :: (third ++ ("require".toList ++ fourth ++ '(' :: fifth)), reference, literal, after, ?_,
    hliteral, rfl, fun start => ?_⟩
  · simp only [List.append_assoc, List.cons_append, List.nil_append]
  · have hgap := isGap_of_describes hfirst
    have hsolid := isSolid_of_mem_braceWords
      (mem_braceWords_of_mem_keywords (mem_keywords_of_describes hkeyword))
    obtain ⟨front, last, hwords⟩ :=
      Text.exists_wordsOf_gap hsolid hgap.1 hgap.2 start (target ++ second)
    rw [List.append_cons] at hwords
    refine .bound (List.append_assoc _ _ _).symm (target_of_describes htarget)
      ⟨start ++ keyword ++ first, second, ?_⟩ fun hname => ?_
    · simp only [List.append_assoc]
    · rw [hwords, Text.wordsOf_word_blanks hname.isSolid (isBlank_of_describes hsecond)]
      exact ⟨_, rfl⟩

/-- Calls of `import`. -/
theorem hasOpening_importCall : HasOpening importCall := by
  intro piece memory h
  obtain ⟨first, second, reference, literal, after, rfl, hfirst, hliteral, rfl⟩ :=
    exists_of_callWith (by decide) h
  have hsolid : IsSolid "import".toList := by decide
  refine ⟨_, reference, literal, after, rfl, hliteral, rfl, fun start => ?_⟩
  obtain ⟨front, last, hwords⟩ := Text.exists_wordsOf_blanks hsolid hfirst start
  exact .call (List.append_assoc _ _ _).symm hwords

/-- Exports of everything. -/
theorem hasOpening_exportAll : HasOpening exportAll := by
  intro piece memory h
  obtain ⟨_, _, hword, h₁, rfl⟩ := (describes_seq_iff (by decide)).mp h
  obtain ⟨first, _, hfirst, h₂, rfl⟩ := (describes_seq_iff (by decide)).mp h₁
  obtain ⟨_, _, hstar, h₃, rfl⟩ := (describes_seq_iff (by decide)).mp h₂
  obtain ⟨second, _, hsecond, h₄, rfl⟩ := (describes_seq_iff (by decide)).mp h₃
  obtain ⟨third, reference, literal, rfl, hthird, hliteral, rfl⟩ := exists_of_fromReference h₄
  obtain ⟨rfl, -⟩ := describes_word_iff.mp hword
  obtain ⟨rfl, -⟩ := describes_one_iff.mp hstar
  refine ⟨"export".toList ++ (first ++ (['*'] ++ (second ++ ("from".toList ++ third)))), reference,
    literal, [], ?_, hliteral, rfl, fun start => ?_⟩
  · simp only [List.append_assoc, List.append_nil]
  · have hgap := isGap_of_describes hfirst
    have hbetween := isGap_of_describes hsecond
    have hexport : IsSolid "export".toList := by decide
    obtain ⟨front, last, hwords⟩ := Text.exists_wordsOf_gap hexport hgap.1 hgap.2 start
      (['*'] ++ (second ++ ("from".toList ++ third)))
    rw [Text.wordsOf_word_gap (by decide) hbetween.1 hbetween.2,
      Text.wordsOf_word_blanks (by decide) hthird.1, List.append_cons] at hwords
    exact .all hwords

/-- Exports of everything under one name. -/
theorem hasOpening_exportAllAs : HasOpening exportAllAs := by
  intro piece memory h
  obtain ⟨_, _, hword, h₁, rfl⟩ := (describes_seq_iff (by decide)).mp h
  obtain ⟨first, _, hfirst, h₂, rfl⟩ := (describes_seq_iff (by decide)).mp h₁
  obtain ⟨_, _, hstar, h₃, rfl⟩ := (describes_seq_iff (by decide)).mp h₂
  obtain ⟨second, _, hsecond, h₄, rfl⟩ := (describes_seq_iff (by decide)).mp h₃
  obtain ⟨_, _, has, h₅, rfl⟩ := (describes_seq_iff (by decide)).mp h₄
  obtain ⟨third, _, hthird, h₆, rfl⟩ := (describes_seq_iff (by decide)).mp h₅
  obtain ⟨name, _, hname, h₇, rfl⟩ := (describes_seq_iff (by decide)).mp h₆
  obtain ⟨fourth, _, hfourth, h₈, rfl⟩ := (describes_seq_iff (by decide)).mp h₇
  obtain ⟨fifth, reference, literal, rfl, hfifth, hliteral, rfl⟩ := exists_of_fromReference h₈
  obtain ⟨rfl, -⟩ := describes_word_iff.mp hword
  obtain ⟨rfl, -⟩ := describes_one_iff.mp hstar
  obtain ⟨rfl, -⟩ := describes_word_iff.mp has
  have hword := (describes_name_iff.mp hname).2
  refine ⟨"export".toList ++ (first ++ (['*'] ++ (second ++ ("as".toList ++ (third ++ (name ++
    (fourth ++ ("from".toList ++ fifth)))))))), reference, literal, [], ?_, hliteral, rfl,
    fun start => ?_⟩
  · simp only [List.append_assoc, List.append_nil]
  · have hgap := isGap_of_describes hthird
    have hbetween := isGap_of_describes hfourth
    have has : IsSolid "as".toList := by decide
    obtain ⟨front, last, hwords⟩ := Text.exists_wordsOf_gap has hgap.1 hgap.2
      (start ++ ("export".toList ++ (first ++ (['*'] ++ second))))
      (name ++ (fourth ++ ("from".toList ++ fifth)))
    rw [Text.wordsOf_word_gap hword.isSolid hbetween.1 hbetween.2,
      Text.wordsOf_word_blanks (by decide) hfifth.1, List.append_cons] at hwords
    simp only [List.append_assoc] at hwords
    exact .allAs hword (hwords.trans (List.append_assoc _ _ _).symm)

/-- Imports of a default and of names, over lines. -/
theorem hasOpening_importDefaultOverLines : HasOpening importDefaultOverLines := by
  intro piece memory h
  obtain ⟨_, _, hword, h₁, rfl⟩ := (describes_seq_iff (by decide)).mp h
  obtain ⟨first, _, hfirst, h₂, rfl⟩ := (describes_seq_iff (by decide)).mp h₁
  obtain ⟨name, _, hname, h₃, rfl⟩ := (describes_seq_iff (by decide)).mp h₂
  obtain ⟨second, _, hsecond, h₄, rfl⟩ := (describes_seq_iff (by decide)).mp h₃
  obtain ⟨_, _, hcomma, h₅, rfl⟩ := (describes_seq_iff (by decide)).mp h₄
  obtain ⟨third, _, hthird, h₆, rfl⟩ := (describes_seq_iff (by decide)).mp h₅
  obtain ⟨_, _, hbraces, h₇, rfl⟩ := (describes_seq_iff (by decide)).mp h₆
  obtain ⟨before, reference, literal, after, rfl, -, hliteral, rfl⟩ :=
    holds_of_describes (by decide) h₇
  obtain ⟨rfl, -⟩ := describes_word_iff.mp hword
  obtain ⟨rfl, -⟩ := describes_one_iff.mp hcomma
  obtain ⟨-, inner, -, rfl⟩ := describes_braces_iff.mp hbraces
  refine ⟨"import".toList ++ (first ++ (name ++ (second ++ ([','] ++ third)))) ++
    '\x7b' :: (inner ++ ['\x7d'] ++ before), reference, literal, after, ?_, hliteral, rfl,
    fun start => ?_⟩
  · simp only [List.append_assoc, List.cons_append, List.nil_append]
  · have hgap := isGap_of_describes hfirst
    have hcut : wordsOf (name ++ (second ++ ([','] ++ third))) =
        wordsOf (name ++ (second ++ [','])) := by
      rw [← Text.wordsOf_append_blanks (isBlank_of_describes hthird) (name ++ (second ++ [',']))]
      simp only [List.append_assoc]
    have himport : IsSolid "import".toList := by decide
    obtain ⟨front, last, hwords⟩ := Text.exists_wordsOf_gap himport hgap.1 hgap.2 start
      (name ++ (second ++ ([','] ++ third)))
    rw [hcut] at hwords
    exact .defaultBraces (describes_name_iff.mp hname).2 (isBlank_of_describes hsecond)
      (List.append_assoc _ _ _).symm hwords

/-- What a form but that of free calls finds is opened. -/
theorem hasOpening_of_mem {form : Pattern} (h : form ∈ effectForm :: (lineForms ++ textForms))
    (hfree : form ≠ freeRequire) : HasOpening form := by
  have hword (w : String) (hw : w.toList ∈ braceWords) (hsilent : (word w).isSilent = true) :
      (word w).isSilent = true ∧
        ∀ piece, (word w).Describes piece [] → piece ∈ braceWords := by
    refine ⟨hsilent, fun piece h => ?_⟩
    obtain ⟨rfl, -⟩ := describes_word_iff.mp h
    exact hw
  have hkeyword : variableKeyword.isSilent = true ∧
      ∀ piece, variableKeyword.Describes piece [] → piece ∈ braceWords :=
    ⟨by decide, fun _ h => mem_braceWords_of_mem_keywords (mem_keywords_of_describes h)⟩
  have hgap : gap.isSilent = true ∧ ∀ piece, gap.Describes piece [] → IsBlank piece :=
    ⟨by decide, fun _ h => (isGap_of_describes h).1⟩
  have hblanks : blanks.isSilent = true ∧ ∀ piece, blanks.Describes piece [] → IsBlank piece :=
    ⟨by decide, fun _ h => isBlank_of_describes h⟩
  have hbraces : braces.isSilent = true ∧
      ∀ piece, braces.Describes piece [] → ∃ rest, piece = '\x7b' :: rest := by
    refine ⟨by decide, fun piece h => ?_⟩
    obtain ⟨-, inner, -, rfl⟩ := describes_braces_iff.mp h
    exact ⟨_, rfl⟩
  have hbrace : (char (.one '\x7b')).isSilent = true ∧
      ∀ piece, (char (.one '\x7b')).Describes piece [] → ∃ rest, piece = '\x7b' :: rest :=
    ⟨rfl, fun piece h => ⟨[], (describes_one_iff.mp h).1⟩⟩
  have himport := hword "import" (by decide) (by decide)
  have hexport := hword "export" (by decide) (by decide)
  have htype := hword "type" (by decide) (by decide)
  simp only [lineForms, textForms, List.cons_append, List.nil_append, List.mem_cons,
    List.not_mem_nil, or_false] at h
  rcases h with rfl | rfl | rfl | rfl | rfl | rfl | rfl | rfl | rfl | rfl | rfl | rfl | rfl | rfl |
    rfl | rfl | rfl
  · exact hasOpening_effectForm
  · exact hasOpening_importFrom
  · exact hasOpening_importTypesFrom
  · exact hasOpening_boundRequire
  · exact absurd rfl hfree
  · exact hasOpening_importCall
  · exact .braces hexport hgap hbraces (by decide)
  · exact .seq (by decide) (.seq (by decide) (.braces htype hgap hbraces (by decide)))
  · exact hasOpening_exportAll
  · exact hasOpening_exportAllAs
  · exact .braces hexport hgap hbrace (by decide)
  · exact .braces hexport hgap hbrace (by decide)
  · exact .braces himport hblanks hbraces (by decide)
  · exact .braces hkeyword hblanks hbraces (by decide)
  · exact hasOpening_importDefaultOverLines
  · exact .braces hexport hblanks hbraces (by decide)
  · exact .seq (by decide) (.seq (by decide) (.braces htype hblanks hbraces (by decide)))

end Forms

/-- Where one of the calls of `require` that are not bound stands, what stands before its literal
opens it. -/
theorem exists_opens_of_freeRequire {start : Text} {place last : Cursor}
    (hplace : (Cursor.start text).Reads start [] place) (h : last ∈ ways freeRequire place) :
    ∃ before reference literal after, text = before ++ (literal ++ after) ∧ Opens before ∧
      IsLiteral reference literal ∧ last.group? 1 = some reference := by
  have hcall {start : Text} {there : Cursor} (hthere : (Cursor.start text).Reads start [] there)
      (hlast : last ∈ ways (callWith "require") there)
      (hstart : start = [] ∨ ∃ front c, start = front ++ [c] ∧ c ≠ '=') :
      ∃ before reference literal after, text = before ++ (literal ++ after) ∧ Opens before ∧
        IsLiteral reference literal ∧ last.group? 1 = some reference := by
    obtain ⟨piece, memory, hpiece, hreads⟩ := (mem_ways_iff (by decide)).mp hlast
    obtain ⟨first, second, reference, literal, after, rfl, hfirst, hliteral, rfl⟩ :=
      exists_of_callWith (by decide) hpiece
    refine ⟨start ++ "require".toList ++ first ++ '(' :: second, reference, literal,
      after ++ last.after, ?_, .freeCall rfl hfirst hstart, hliteral, ?_⟩
    · have htext : text = start ++ there.after := hthere.after
      rw [htext, hreads.after]
      simp only [List.append_assoc, List.cons_append]
    · unfold Cursor.group?
      rw [hreads.groups]
      rfl
  rcases mem_ways_freeRequire_iff.mp h with ⟨hbefore, hlast⟩ | ⟨c, there, hc, -, hread, hlast⟩
  · have hstart : start = [] := by
      have hnone : start.reverse ++ (Cursor.start text).before = [] :=
        hplace.before.symm.trans hbefore
      exact List.reverse_eq_nil_iff.mp (List.append_eq_nil_iff.mp hnone).1
    exact hcall hplace hlast (Or.inl hstart)
  · exact hcall (hplace.trans hread) hlast (Or.inr ⟨start, c, rfl, hc⟩)

/-- What stands before the quotes around a reference that a form finds opens it. -/
theorem exists_opens_of_mem_found {form : Pattern}
    (hform : form ∈ effectForm :: (lineForms ++ textForms)) {reference : Text}
    (h : reference ∈ found form text) :
    ∃ before literal after, text = before ++ (literal ++ after) ∧ Opens before ∧
      IsLiteral reference literal := by
  obtain ⟨last, hlast, hgroup⟩ := List.mem_filterMap.mp h
  obtain ⟨start, place, hplace, hways⟩ := exists_of_mem_findAll hlast
  rcases isLeading_of_mem hform with rfl | ⟨hregular, -⟩
  · obtain ⟨before, captured, literal, after, htext, hopens, hliteral, hcaptured⟩ :=
      exists_opens_of_freeRequire hplace hways
    cases hcaptured.symm.trans hgroup
    exact ⟨before, literal, after, htext, hopens, hliteral⟩
  · have hfree : form ≠ freeRequire := by
      rintro rfl
      exact absurd hregular (by decide)
    obtain ⟨piece, memory, hpiece, hreads⟩ := (mem_ways_iff hregular).mp hways
    obtain ⟨head, captured, literal, after, rfl, hliteral, rfl, hopens⟩ :=
      hasOpening_of_mem hform hfree piece memory hpiece
    have hcaptured : last.group? 1 = some captured := by
      unfold Cursor.group?
      rw [hreads.groups]
      rfl
    cases hcaptured.symm.trans hgroup
    refine ⟨start ++ head, literal, after ++ last.after, ?_, hopens start, hliteral⟩
    have htext : text = start ++ place.after := hplace.after
    rw [htext, hreads.after]
    simp only [List.append_assoc]

end SourceLoom.Reference
