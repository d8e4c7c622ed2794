import SourceLoom.Proofs.Pattern.Pieces
import SourceLoom.Proofs.Pattern.Search
import SourceLoom.Proofs.Reference.Literals

/-!
# What the forms of references describe

Every form describes pieces of text in which its reference stands between two quotes, after a lead:
the word `from` or `import`, or the beginning of a call of a loader. A form that may spread over
lines describes more: before the opening quote stands a tail, `from` or a call of `require` after
an equals sign, and before the tail the first closing brace of the piece.
-/

namespace SourceLoom.Reference

open Pattern

variable {piece : Text} {memory : Memory}

/-- All characters of a text are blank. -/
def IsBlank (text : Text) : Prop := ∀ c ∈ text, Text.isBlank c = true

/-- A text is a name: it has a character, and all are word characters. -/
def IsName (text : Text) : Prop := text ≠ [] ∧ ∀ c ∈ text, Text.isWord c = true

/-- Texts can be tested for being blank. -/
instance (text : Text) : Decidable (IsBlank text) := by
  unfold IsBlank
  infer_instance

/-- Texts can be tested for being names. -/
instance (text : Text) : Decidable (IsName text) := by
  unfold IsName
  infer_instance

section Blocks

/-- The place of a fixed word describes the word. -/
theorem describes_word_iff {w : String} :
    (word w).Describes piece memory ↔ piece = w.toList ∧ memory = [] := describes_text_iff

/-- Any blanks. -/
theorem describes_blanks_iff : blanks.Describes piece memory ↔ memory = [] ∧ IsBlank piece := by
  rw [blanks, describes_many_char_iff]
  simp only [CharSet.has_blank]
  rfl

/-- At least one blank. -/
theorem describes_gap_iff :
    gap.Describes piece memory ↔ memory = [] ∧ IsBlank piece ∧ piece ≠ [] := by
  rw [gap, describes_many1_char_iff]
  simp only [CharSet.has_blank]
  rfl

/-- A name. -/
theorem describes_name_iff : name.Describes piece memory ↔ memory = [] ∧ IsName piece := by
  rw [name, describes_many1_char_iff, IsName, and_comm (a := piece ≠ [])]
  simp only [CharSet.has_word]

/-- Anything up to a character. -/
theorem describes_upTo_iff {close : Char} :
    (upTo close).Describes piece memory ↔
      memory = [] ∧ ∃ inner, close ∉ inner ∧ piece = inner ++ [close] := by
  constructor
  · rintro ⟨inner, old, last, new, hinner, hlast, rfl, rfl⟩
    obtain ⟨rfl, hall⟩ := describes_many_char_iff.mp hinner
    obtain ⟨rfl, rfl⟩ := describes_one_iff.mp hlast
    refine ⟨rfl, inner, fun hmem => ?_, rfl⟩
    exact (CharSet.has_outside _ _).mp (hall close hmem) (List.mem_singleton_self close)
  · rintro ⟨rfl, inner, hinner, rfl⟩
    refine (describes_many_char_iff.mpr ⟨rfl, fun c hc => ?_⟩).then
      (describes_one_iff.mpr ⟨rfl, rfl⟩)
    rw [CharSet.has_outside, List.mem_singleton]
    exact fun hsame => hinner (hsame ▸ hc)

/-- Braces and what is between them. -/
theorem describes_braces_iff :
    braces.Describes piece memory ↔
      memory = [] ∧ ∃ inner, '\x7d' ∉ inner ∧ piece = '\x7b' :: inner ++ ['\x7d'] := by
  constructor
  · rintro ⟨first, old, rest, new, hfirst, hrest, rfl, rfl⟩
    obtain ⟨rfl, rfl⟩ := describes_one_iff.mp hfirst
    obtain ⟨rfl, inner, hinner, rfl⟩ := describes_upTo_iff.mp hrest
    exact ⟨rfl, inner, hinner, rfl⟩
  · rintro ⟨rfl, inner, hinner, rfl⟩
    exact (describes_one_iff.mpr ⟨rfl, rfl⟩).then (describes_upTo_iff.mpr ⟨rfl, inner, hinner, rfl⟩)

/-- A quoted reference, which is remembered. -/
theorem describes_quotedReference_iff :
    quotedReference.Describes piece memory ↔
      ∃ reference, IsLiteral reference piece ∧ memory = [(1, reference)] := by
  constructor
  · rintro ⟨first, old, rest, new, hfirst, ⟨reference, inner, last, late, ⟨_, hinner, rfl⟩, hlast,
      rfl, rfl⟩, rfl, rfl⟩
    obtain ⟨⟨opening, hopening, rfl⟩, rfl⟩ := describes_of_iff.mp hfirst
    obtain ⟨⟨closing, hclosing, rfl⟩, rfl⟩ := describes_of_iff.mp hlast
    obtain ⟨rfl, hall, hne⟩ := describes_many1_char_iff.mp hinner
    refine ⟨reference, .mk hopening hne (fun c hc => ?_) hclosing, rfl⟩
    exact (CharSet.has_outside _ _).mp (hall c hc)
  · rintro ⟨reference, ⟨hopening, hne, hfree, hclosing⟩, rfl⟩
    have hinner : (many1 (char (.outside quotes))).Describes reference [] :=
      describes_many1_char_iff.mpr
        ⟨rfl, fun c hc => (CharSet.has_outside _ _).mpr (hfree c hc), hne⟩
    have hgroup : (group 1 (many1 (char (.outside quotes)))).Describes reference
        [(1, reference)] := ⟨[], hinner, rfl⟩
    exact (describes_of_iff.mpr ⟨⟨_, hopening, rfl⟩, rfl⟩).then
      (hgroup.seq (describes_of_iff.mpr ⟨⟨_, hclosing, rfl⟩, rfl⟩))

end Blocks

section Captures

/-- What stands right before the opening quote of a reference: the word `from` or `import`, or the
beginning of a call of a loader. -/
inductive IsLead : Text → Prop
  /-- The word `from`. -/
  | ofFrom {first : Text} : IsBlank first → IsLead ("from".toList ++ first)
  /-- The word `import`, and a gap. -/
  | ofImport {first : Text} : IsBlank first → first ≠ [] → IsLead ("import".toList ++ first)
  /-- The name of a loader, and an opening parenthesis. -/
  | ofCall {loader : String} {first second : Text} : loader ∈ ["require", "import"] →
      IsBlank first → IsBlank second → IsLead (loader.toList ++ (first ++ '(' :: second))

/-- A text ends in what may stand right before the opening quote of a reference. -/
def EndsInLead (text : Text) : Prop := ∃ lead, lead <:+ text ∧ IsLead lead

/-- The word `from` and a reference, over lines. -/
def fromReferenceOverLines : Pattern := sequence [word "from", blanks, quotedReference]

/-- The patterns of a quoted reference after a lead. -/
def leads : List Pattern :=
  [fromReference, fromReferenceOverLines, effectForm, callWith "require", callWith "import"]

/-- Whether a pattern ends in a quoted reference after a lead, with a silent pattern before it. -/
def isLeading : Pattern → Bool
  | .seq q r => .seq q r ∈ leads || q.isSilent && isLeading r
  | _ => false

/-- A piece in which a literal stands after a lead, and nothing but its reference is remembered. -/
def Holds (piece : Text) (memory : Memory) : Prop :=
  ∃ before reference literal after, piece = before ++ literal ++ after ∧ EndsInLead before ∧
    IsLiteral reference literal ∧ memory = [(1, reference)]

/-- In every piece of a word, of blanks that make it a lead, and of a quoted reference, a literal
stands after the lead. -/
theorem holds_of_word {w : String} {p : Pattern} (hword : (word w).isSilent = true)
    (hp : p.isSilent = true) (hlead : ∀ first, p.Describes first [] → IsLead (w.toList ++ first))
    (h : (sequence [word w, p, quotedReference]).Describes piece memory) : Holds piece memory := by
  obtain ⟨_, _, hfirst, h₁, rfl⟩ := (describes_seq_iff hword).mp h
  obtain ⟨second, literal, hsecond, hquoted, rfl⟩ := (describes_seq_iff hp).mp h₁
  obtain ⟨rfl, -⟩ := describes_word_iff.mp hfirst
  obtain ⟨reference, hliteral, rfl⟩ := describes_quotedReference_iff.mp hquoted
  refine ⟨w.toList ++ second, reference, literal, [], ?_,
    ⟨_, List.suffix_rfl, hlead second hsecond⟩, hliteral, rfl⟩
  simp only [List.append_assoc, List.append_nil]

/-- In every piece of the call of a loader a literal stands after its beginning. -/
theorem holds_of_callWith {loader : String} (hloader : loader ∈ ["require", "import"])
    (hsilent : (word loader).isSilent = true) (h : (callWith loader).Describes piece memory) :
    Holds piece memory := by
  obtain ⟨_, _, hword, h₁, rfl⟩ := (describes_seq_iff hsilent).mp h
  obtain ⟨first, _, hfirst, h₂, rfl⟩ := (describes_seq_iff (by decide)).mp h₁
  obtain ⟨_, _, hopen, h₃, rfl⟩ := (describes_seq_iff (by decide)).mp h₂
  obtain ⟨second, _, hsecond, h₄, rfl⟩ := (describes_seq_iff (by decide)).mp h₃
  obtain ⟨literal, old, rest, new, hquoted, hrest, rfl, rfl⟩ := h₄
  have hnew := memory_eq_nil (by decide) hrest
  obtain ⟨rfl, -⟩ := describes_word_iff.mp hword
  obtain ⟨rfl, -⟩ := describes_one_iff.mp hopen
  obtain ⟨reference, hliteral, rfl⟩ := describes_quotedReference_iff.mp hquoted
  have hfirst := (describes_blanks_iff.mp hfirst).2
  have hsecond := (describes_blanks_iff.mp hsecond).2
  rw [hnew]
  refine ⟨loader.toList ++ (first ++ '(' :: second), reference, literal, rest, ?_,
    ⟨_, List.suffix_rfl, .ofCall hloader hfirst hsecond⟩, hliteral, rfl⟩
  simp only [List.append_assoc, List.cons_append, List.nil_append]

/-- In every piece of a quoted reference after a lead a literal stands after the lead. -/
theorem holds_of_mem_leads {p : Pattern} (hp : p ∈ leads) (h : p.Describes piece memory) :
    Holds piece memory := by
  simp only [leads, List.mem_cons, List.not_mem_nil, or_false] at hp
  rcases hp with rfl | rfl | rfl | rfl | rfl
  · exact holds_of_word (by decide) (by decide)
      (fun first hfirst => .ofFrom (describes_gap_iff.mp hfirst).2.1) h
  · exact holds_of_word (by decide) (by decide)
      (fun first hfirst => .ofFrom (describes_blanks_iff.mp hfirst).2) h
  · refine holds_of_word (by decide) (by decide) (fun first hfirst => ?_) h
    obtain ⟨-, hblank, hne⟩ := describes_gap_iff.mp hfirst
    exact .ofImport hblank hne
  · exact holds_of_callWith (by decide) (by decide) h
  · exact holds_of_callWith (by decide) (by decide) h

/-- In every piece of a leading pattern a literal stands after a lead, and its reference is
remembered. -/
theorem holds_of_describes {p : Pattern} (hp : isLeading p = true)
    (h : p.Describes piece memory) : Holds piece memory := by
  induction p generalizing piece memory with
  | seq q r ihq ihr =>
    rw [isLeading, Bool.or_eq_true, Bool.and_eq_true, decide_eq_true_eq] at hp
    rcases hp with hlead | ⟨hsilent, hrest⟩
    · exact holds_of_mem_leads hlead h
    · obtain ⟨first, second, -, hsecond, rfl⟩ := (describes_seq_iff hsilent).mp h
      obtain ⟨before, reference, literal, after, rfl, ⟨lead, hsuffix, hlead⟩, hliteral, rfl⟩ :=
        ihr hrest hsecond
      refine ⟨first ++ before, reference, literal, after, ?_,
        ⟨lead, hsuffix.trans (List.suffix_append first before), hlead⟩, hliteral, rfl⟩
      simp only [List.append_assoc]
  | _ => cases hp

/-- A leading pattern leads from a place beyond a literal after a lead, and remembers its
reference. -/
theorem exists_literal {form : Pattern} (hregular : form.isRegular = true)
    (hleading : isLeading form = true) {text start : Text} {place last : Cursor}
    (hplace : (Cursor.start text).Reads start [] place) (hlast : last ∈ ways form place) :
    ∃ before reference literal after, text = before ++ literal ++ after ∧ EndsInLead before ∧
      IsLiteral reference literal ∧ last.group? 1 = some reference := by
  obtain ⟨piece, memory, hpiece, hreads⟩ := (mem_ways_iff hregular).mp hlast
  obtain ⟨before, reference, literal, after, rfl, ⟨lead, hsuffix, hlead⟩, hliteral, rfl⟩ :=
    holds_of_describes hleading hpiece
  refine ⟨start ++ before, reference, literal, after ++ last.after, ?_,
    ⟨lead, hsuffix.trans (List.suffix_append start before), hlead⟩, hliteral, ?_⟩
  · have htext : text = start ++ place.after := hplace.after
    rw [htext, hreads.after]
    simp only [List.append_assoc]
  · unfold Cursor.group?
    rw [hreads.groups]
    rfl

/-- A call of `require` that is not bound is one at the beginning of a text, or after a character
that is neither an equals sign nor a word character. -/
theorem mem_ways_freeRequire_iff {place last : Cursor} :
    last ∈ ways freeRequire place ↔
      (place.before = [] ∧ last ∈ ways (callWith "require") place) ∨
        ∃ c there, c ≠ '=' ∧ Text.isWord c = false ∧ place.Reads [c] [] there ∧
          last ∈ ways (callWith "require") there := by
  have hset (c : Char) : CharSet.has ⟨true, [.one '=', .inClass .word false false], .exact⟩ c =
      true ↔ c ≠ '=' ∧ Text.isWord c = false := by
    simp [CharSet.has, CharItem.isCased, CaseRule.isCased, CharItem.has, CharClass.has,
      eq_comm (a := c)]
  rw [freeRequire, ways, List.mem_flatMap]
  constructor
  · rintro ⟨there, hthere, hlast⟩
    rw [ways, List.mem_append, ways, ways, Option.mem_toList, Cursor.step?_eq_some_iff] at hthere
    rcases hthere with hstart | ⟨c, hc, hread⟩
    · split at hstart
      · rename_i hmeets
        rw [List.mem_singleton.mp hstart] at hlast
        exact Or.inl ⟨by simpa [Cursor.meets] using hmeets, hlast⟩
      · cases hstart
    · obtain ⟨hequals, hword⟩ := (hset c).mp hc
      exact Or.inr ⟨c, there, hequals, hword, hread, hlast⟩
  · rintro (⟨hbefore, hlast⟩ | ⟨c, there, hequals, hword, hread, hlast⟩)
    · have hmeets : place.meets .textStart = true := decide_eq_true hbefore
      refine ⟨place, ?_, hlast⟩
      rw [ways, List.mem_append, ways, ways, if_pos hmeets]
      exact Or.inl List.mem_cons_self
    · refine ⟨there, ?_, hlast⟩
      rw [ways, List.mem_append, ways, ways, Option.mem_toList, Cursor.step?_eq_some_iff]
      exact Or.inr ⟨c, (hset c).mpr ⟨hequals, hword⟩, hread⟩

/-- The forms but one are regular and leading. -/
theorem isLeading_of_mem {form : Pattern} (h : form ∈ effectForm :: (lineForms ++ textForms)) :
    form = freeRequire ∨ form.isRegular = true ∧ isLeading form = true := by
  have hall : ∀ form ∈ effectForm :: (lineForms ++ textForms),
      form = freeRequire ∨ form.isRegular = true ∧ isLeading form = true := by decide
  exact hall form h

/-- In a piece that a form finds in a text a literal stands after a lead, and its reference is
remembered. -/
theorem exists_literal_of_mem_findAll {form : Pattern}
    (hform : form ∈ effectForm :: (lineForms ++ textForms)) {text : Text} {last : Cursor}
    (h : last ∈ findAll form text) :
    ∃ before reference literal after, text = before ++ literal ++ after ∧ EndsInLead before ∧
      IsLiteral reference literal ∧ last.group? 1 = some reference := by
  obtain ⟨start, place, hplace, hways⟩ := exists_of_mem_findAll h
  rcases isLeading_of_mem hform with rfl | ⟨hregular, hleading⟩
  · rcases mem_ways_freeRequire_iff.mp hways with ⟨-, hlast⟩ | ⟨c, there, -, -, hread, hlast⟩
    · exact exists_literal (by decide) (by decide) hplace hlast
    · exact exists_literal (by decide) (by decide) (hplace.trans hread) hlast
  · exact exists_literal hregular hleading hplace hways

/-- Every reference that a form finds in a text stands between two quotes there, after a lead. -/
theorem exists_literal_of_mem_found {form : Pattern}
    (hform : form ∈ effectForm :: (lineForms ++ textForms)) {text reference : Text}
    (h : reference ∈ found form text) :
    ∃ before literal after, text = before ++ literal ++ after ∧ EndsInLead before ∧
      IsLiteral reference literal := by
  obtain ⟨last, hlast, hgroup⟩ := List.mem_filterMap.mp h
  obtain ⟨before, captured, literal, after, htext, hlead, hliteral, hcaptured⟩ :=
    exists_literal_of_mem_findAll hform hlast
  cases hcaptured.symm.trans hgroup
  exact ⟨before, literal, after, htext, hlead, hliteral⟩

/-- Where only one reference is quoted, a form finds it in a text in which one of its pieces
stands. -/
theorem mem_found_of_ways {form : Pattern}
    (hform : form ∈ effectForm :: (lineForms ++ textForms)) {text before reference : Text}
    {place : Cursor} (hplace : (Cursor.start text).Reads before [] place) (hne : place.after ≠ [])
    (hways : ways form place ≠ []) (hquoting : Quoting [reference] text) :
    reference ∈ found form text := by
  obtain ⟨-, -, -, last, -, -, hlast, -⟩ := exists_mem_findAll hplace hne hways
  obtain ⟨before, captured, literal, after, htext, -, hliteral, hgroup⟩ :=
    exists_literal_of_mem_findAll hform hlast
  rw [htext] at hquoting
  rw [← hquoting.eq_of_isLiteral hliteral]
  exact List.mem_filterMap.mpr ⟨last, hlast, hgroup⟩

/-- A form has a way from where one of its pieces begins. -/
theorem ways_ne_nil {form : Pattern} (hregular : form.isRegular = true) {rest : Text}
    (h : form.Describes piece memory) {place : Cursor} (hplace : place.after = piece ++ rest) :
    ways form place ≠ [] := by
  have hlast := (mem_ways_iff hregular).mpr ⟨piece, memory, h,
    (⟨hplace, rfl, rfl⟩ : place.Reads piece memory
      ⟨piece.reverse ++ place.before, rest, rest.length, rfl, memory ++ place.groups⟩)⟩
  exact List.ne_nil_of_mem hlast

end Captures

section Tails

/-- What stands between a closing brace and the opening quote in a form that may spread over
lines. -/
inductive IsTail : Text → Prop
  /-- The word `from`. -/
  | ofFrom {first second : Text} : IsBlank first → IsBlank second →
      IsTail (first ++ "from".toList ++ second)
  /-- An equals sign and the beginning of a call of `require`. -/
  | ofRequire {first second third fourth : Text} : IsBlank first → IsBlank second →
      IsBlank third → IsBlank fourth →
        IsTail (first ++ '=' :: second ++ "require".toList ++ third ++ '(' :: fourth)

/-- What stands after the closing quote in such a form: nothing, or a closing parenthesis. -/
def IsEnding (ending : Text) : Prop := ending = [] ∨ ∃ first, IsBlank first ∧ ending = first ++ [')']

/-- A piece with its first closing brace before the tail of a literal. -/
def HasTail (piece : Text) (memory : Memory) : Prop :=
  ∃ opening tail reference literal ending, piece = opening ++ '\x7d' :: tail ++ literal ++ ending ∧
    '\x7d' ∉ opening ∧ IsTail tail ∧ IsLiteral reference literal ∧ IsEnding ending ∧
    memory = [(1, reference)]

/-- Braces before a word `from` and a literal. -/
def bracesFrom : Pattern := sequence [braces, blanks, word "from", blanks, quotedReference]

/-- Braces before a call of `require` that they are bound to. -/
def bracesRequire : Pattern :=
  sequence [braces, blanks, char (.one '='), blanks, callWith "require"]

/-- Braces before a word `from` and a literal are braces before a tail. -/
theorem hasTail_of_bracesFrom (h : bracesFrom.Describes piece memory) : HasTail piece memory := by
  obtain ⟨_, _, hbraces, h₁, rfl⟩ := (describes_seq_iff (by decide)).mp h
  obtain ⟨first, _, hfirst, h₂, rfl⟩ := (describes_seq_iff (by decide)).mp h₁
  obtain ⟨_, _, hword, h₃, rfl⟩ := (describes_seq_iff (by decide)).mp h₂
  obtain ⟨second, literal, hsecond, hquoted, rfl⟩ := (describes_seq_iff (by decide)).mp h₃
  obtain ⟨-, inner, hinner, rfl⟩ := describes_braces_iff.mp hbraces
  obtain ⟨rfl, -⟩ := describes_word_iff.mp hword
  obtain ⟨reference, hliteral, rfl⟩ := describes_quotedReference_iff.mp hquoted
  have hfirst := (describes_blanks_iff.mp hfirst).2
  have hsecond := (describes_blanks_iff.mp hsecond).2
  refine ⟨'\x7b' :: inner, _, reference, literal, [], ?_, ?_, .ofFrom hfirst hsecond, hliteral,
    Or.inl rfl, rfl⟩
  · simp only [List.append_assoc, List.cons_append, List.append_nil, List.nil_append]
  · rw [List.mem_cons, not_or]
    exact ⟨by decide, hinner⟩

/-- Braces before a call of `require` that they are bound to are braces before a tail. -/
theorem hasTail_of_bracesRequire (h : bracesRequire.Describes piece memory) :
    HasTail piece memory := by
  obtain ⟨_, _, hbraces, h₁, rfl⟩ := (describes_seq_iff (by decide)).mp h
  obtain ⟨first, _, hfirst, h₂, rfl⟩ := (describes_seq_iff (by decide)).mp h₁
  obtain ⟨_, _, hequals, h₃, rfl⟩ := (describes_seq_iff (by decide)).mp h₂
  obtain ⟨second, _, hsecond, h₄, rfl⟩ := (describes_seq_iff (by decide)).mp h₃
  obtain ⟨_, _, hword, h₅, rfl⟩ := (describes_seq_iff (by decide)).mp h₄
  obtain ⟨third, _, hthird, h₆, rfl⟩ := (describes_seq_iff (by decide)).mp h₅
  obtain ⟨_, _, hopen, h₇, rfl⟩ := (describes_seq_iff (by decide)).mp h₆
  obtain ⟨fourth, _, hfourth, h₈, rfl⟩ := (describes_seq_iff (by decide)).mp h₇
  obtain ⟨literal, old, _, new, hquoted, h₉, rfl, rfl⟩ := h₈
  obtain ⟨fifth, _, hfifth, hclose, rfl⟩ := (describes_seq_iff (by decide)).mp h₉
  obtain ⟨-, inner, hinner, rfl⟩ := describes_braces_iff.mp hbraces
  obtain ⟨rfl, -⟩ := describes_one_iff.mp hequals
  obtain ⟨rfl, -⟩ := describes_word_iff.mp hword
  obtain ⟨rfl, -⟩ := describes_one_iff.mp hopen
  obtain ⟨rfl, rfl⟩ := describes_one_iff.mp hclose
  obtain ⟨reference, hliteral, rfl⟩ := describes_quotedReference_iff.mp hquoted
  have hfirst := (describes_blanks_iff.mp hfirst).2
  have hsecond := (describes_blanks_iff.mp hsecond).2
  have hthird := (describes_blanks_iff.mp hthird).2
  have hfourth := (describes_blanks_iff.mp hfourth).2
  have hfifth := (describes_blanks_iff.mp hfifth).2
  refine ⟨'\x7b' :: inner, _, reference, literal, fifth ++ [')'], ?_, ?_,
    .ofRequire hfirst hsecond hthird hfourth, hliteral, Or.inr ⟨fifth, hfifth, rfl⟩, rfl⟩
  · simp only [List.append_assoc, List.cons_append, List.nil_append]
  · rw [List.mem_cons, not_or]
    exact ⟨by decide, hinner⟩

/-- What has a tail has it after a piece without a closing brace. -/
theorem HasTail.prepend {first : Text} (hfirst : '\x7d' ∉ first) (h : HasTail piece memory) :
    HasTail (first ++ piece) memory := by
  obtain ⟨opening, tail, reference, literal, ending, rfl, hopening, htail, hliteral, hending,
    rfl⟩ := h
  refine ⟨first ++ opening, tail, reference, literal, ending, ?_, ?_, htail, hliteral, hending,
    rfl⟩
  · simp only [List.append_assoc]
  · rw [List.mem_append, not_or]
    exact ⟨hfirst, hopening⟩

/-- Patterns that describe no closing brace. -/
def AvoidsBrace (p : Pattern) : Prop :=
  p.isSilent = true ∧ ∀ piece memory, p.Describes piece memory → '\x7d' ∉ piece

/-- A pattern that ends in one whose pieces have tails. -/
theorem HasTail.of_seq {p q : Pattern} (hp : AvoidsBrace p)
    (hq : ∀ piece memory, q.Describes piece memory → HasTail piece memory)
    (h : (Pattern.seq p q).Describes piece memory) : HasTail piece memory := by
  obtain ⟨first, second, hfirst, hsecond, rfl⟩ := (describes_seq_iff hp.1).mp h
  exact (hq second memory hsecond).prepend (hp.2 first [] hfirst)

/-- Blanks are no closing brace. -/
theorem avoidsBrace_blanks : AvoidsBrace blanks := by
  refine ⟨by decide, fun piece memory h hmem => ?_⟩
  exact absurd ((describes_blanks_iff.mp h).2 _ hmem) (by decide)

/-- A gap is no closing brace. -/
theorem avoidsBrace_gap : AvoidsBrace gap := by
  refine ⟨by decide, fun piece memory h hmem => ?_⟩
  exact absurd ((describes_gap_iff.mp h).2.1 _ hmem) (by decide)

/-- A name has no closing brace. -/
theorem avoidsBrace_name : AvoidsBrace name := by
  refine ⟨by decide, fun piece memory h hmem => ?_⟩
  exact absurd ((describes_name_iff.mp h).2.2 _ hmem) (by decide)

/-- A word without a closing brace has none. -/
theorem avoidsBrace_text {w : Text} (hsilent : (Pattern.text w).isSilent = true)
    (hw : '\x7d' ∉ w) : AvoidsBrace (Pattern.text w) := by
  refine ⟨hsilent, fun piece memory h => ?_⟩
  obtain ⟨rfl, -⟩ := describes_text_iff.mp h
  exact hw

/-- Every piece of a form that may spread over lines has a tail. -/
theorem hasTail_of_mem {form : Pattern} (hform : form ∈ textForms)
    (h : form.Describes piece memory) : HasTail piece memory := by
  have hword : ∀ w : String, (word w).isSilent = true → '\x7d' ∉ w.toList →
      AvoidsBrace (word w) := fun w => avoidsBrace_text
  have hkeyword : AvoidsBrace variableKeyword := by
    refine ⟨by decide, fun piece memory h hmem => ?_⟩
    rcases h with h | h | h
    · exact (hword "const" (by decide) (by decide)).2 piece memory h hmem
    · exact (hword "let" (by decide) (by decide)).2 piece memory h hmem
    · exact (hword "var" (by decide) (by decide)).2 piece memory h hmem
  have hcomma : AvoidsBrace (char (.one ',')) := by
    refine ⟨by decide, fun piece memory h hmem => ?_⟩
    obtain ⟨rfl, -⟩ := describes_one_iff.mp h
    exact absurd hmem (by decide)
  have hfrom : ∀ piece memory, bracesFrom.Describes piece memory → HasTail piece memory :=
    fun piece memory => hasTail_of_bracesFrom
  have hrequire : ∀ piece memory, bracesRequire.Describes piece memory → HasTail piece memory :=
    fun piece memory => hasTail_of_bracesRequire
  have himport := hword "import" (by decide) (by decide)
  have hexport := hword "export" (by decide) (by decide)
  have htype := hword "type" (by decide) (by decide)
  simp only [textForms, List.mem_cons, List.not_mem_nil, or_false] at hform
  rcases hform with rfl | rfl | rfl | rfl | rfl
  · exact .of_seq himport (fun _ _ => .of_seq avoidsBrace_blanks hfrom) h
  · exact .of_seq hkeyword (fun _ _ => .of_seq avoidsBrace_blanks hrequire) h
  · exact .of_seq himport (fun _ _ => .of_seq avoidsBrace_gap (fun _ _ =>
      .of_seq avoidsBrace_name (fun _ _ => .of_seq avoidsBrace_blanks (fun _ _ =>
        .of_seq hcomma (fun _ _ => .of_seq avoidsBrace_blanks hfrom))))) h
  · exact .of_seq hexport (fun _ _ => .of_seq avoidsBrace_blanks hfrom) h
  · exact .of_seq hexport (fun _ _ => .of_seq avoidsBrace_gap (fun _ _ =>
      .of_seq htype (fun _ _ => .of_seq avoidsBrace_blanks hfrom))) h

end Tails

end SourceLoom.Reference
