import SourceLoom.Proofs.Reference.Openings

/-!
# Identifiers that are no names

An identifier may have dollar signs, but a name in a form has word characters alone. What stands
before a literal does not open it if an identifier with a dollar sign is where a form wants a name:
before the word `from`, before a comma and names in braces, or before an equals sign and a call.
There is one exception. An identifier that ends in the word `import` ends like an import without
bindings.
-/

namespace SourceLoom.Reference

open Text (IsSolid wordsOf)

variable {before name inner : Text}

/-- An identifier, which has word characters and dollar signs. It may begin with a digit here. -/
def IsIdentifier (text : Text) : Prop := text ≠ [] ∧ ∀ c ∈ text, Text.isWord c = true ∨ c = '$'

/-- Texts can be tested for being identifiers. -/
instance (text : Text) : Decidable (IsIdentifier text) := by
  unfold IsIdentifier
  infer_instance

namespace IsIdentifier

/-- An identifier is a word. -/
theorem isSolid (h : IsIdentifier name) : IsSolid name := by
  refine ⟨h.1, fun c hc => ?_⟩
  rcases h.2 c hc with hword | rfl
  · exact Text.not_isBlank_of_isWord hword
  · decide

/-- A mark other than the dollar sign is not in an identifier. -/
theorem not_mem (h : IsIdentifier name) {c : Char} (hword : Text.isWord c = false) (hc : c ≠ '$') :
    c ∉ name := by
  intro hmem
  rcases h.2 c hmem with htrue | rfl
  · rw [hword] at htrue
    cases htrue
  · exact hc rfl

/-- An identifier without dollar signs is a name. -/
theorem isName (h : IsIdentifier name) (hdollar : '$' ∉ name) : IsName name := by
  refine ⟨h.1, fun c hc => (h.2 c hc).resolve_right ?_⟩
  rintro rfl
  exact hdollar hc

end IsIdentifier

/-- A dollar sign is in no name. -/
theorem IsName.not_mem_dollar (h : IsName name) : '$' ∉ name := fun hmem =>
  absurd (h.2 _ hmem) (by decide)

/-- Texts that end differently differ. -/
theorem append_ne {s t u v : Text} (hu : u ≠ []) (hv : v ≠ []) (h : u.getLast? ≠ v.getLast?) :
    s ++ u ≠ t ++ v := by
  intro heq
  have hlast := congrArg List.getLast? heq
  rw [List.getLast?_append_of_ne_nil _ hu, List.getLast?_append_of_ne_nil _ hv] at hlast
  exact h hlast

/-- The last of some words, and the one before it. -/
theorem eq_of_last_words {front words : List Text} {x y u v : Text}
    (h : words ++ [x, y] = front ++ [u, v]) : words = front ∧ x = u ∧ y = v := by
  obtain ⟨hfront, hlast⟩ := List.append_inj' h rfl
  rw [List.cons.injEq, List.cons.injEq] at hlast
  exact ⟨hfront, hlast.1, hlast.2.1⟩

/-- Marks that are in none of the words of a text are not in the text. They are in no identifier. -/
theorem not_mem_of_words {marks : List Char}
    (hmarks : ∀ c ∈ marks, Text.isBlank c = false ∧ Text.isWord c = false ∧ c ≠ '$')
    (hwords : ∀ word ∈ wordsOf before, IsIdentifier word ∨ ∀ c ∈ marks, c ∉ word) :
    ∀ c ∈ marks, c ∉ before := by
  intro c hc
  obtain ⟨hblank, hword, hdollar⟩ := hmarks c hc
  refine Text.not_mem_of_wordsOf hblank fun word hmem => ?_
  rcases hwords word hmem with hname | hnone
  · exact hname.not_mem hword hdollar
  · exact hnone c hc

/-- A text that starts bare has no dollar sign and no closing brace in a first word without an
opening brace. -/
theorem StartsBare.first_word {word : Text} {words : List Text} (h : StartsBare inner)
    (hwords : wordsOf inner = word :: words) (hbrace : '\x7b' ∉ word) :
    '$' ∉ word ∧ '\x7d' ∉ word := by
  obtain ⟨gap, rest, rfl, hgap⟩ := Text.exists_of_wordsOf_eq_cons hwords
  have hfree : ∀ c ∈ gap ++ word, decide (c ≠ '\x7b') = true := by
    intro c hc
    rw [decide_eq_true_eq]
    rintro rfl
    rcases List.mem_append.mp hc with hc | hc
    · exact absurd (hgap _ hc) (by decide)
    · exact hbrace hc
  have hbare (c : Char) (hc : c ∈ word) : IsBare c := by
    refine h c ?_
    rw [← List.append_assoc, List.takeWhile_append_of_pos hfree]
    exact List.mem_append_left _ (List.mem_append_right _ hc)
  have hnot : ∀ c ∈ ['$', '\x7d'], ¬IsBare c := by
    unfold IsBare
    decide
  exact ⟨fun hmem => hnot '$' (by decide) (hbare _ hmem),
    fun hmem => hnot '\x7d' (by decide) (hbare _ hmem)⟩

/-- Where the word `from` comes after an identifier with a dollar sign, which comes after keywords,
a form that finds the reference takes the end of the identifier for the word `import`. -/
theorem Opens.import_isSuffix {words : List Text} (h : Opens before) (hname : IsIdentifier name)
    (hdollar : '$' ∈ name) (hwords : wordsOf before = words ++ [name, "from".toList])
    (hkeywords : ∀ word ∈ words, word ∈ ["import".toList, "export".toList, ['*'], "as".toList]) :
    "import".toList <:+ name := by
  have hmark : ∀ c ∈ ['\x7b', '(', '='], c ∉ before := by
    have hall : ∀ word ∈ ["import".toList, "export".toList, ['*'], "as".toList],
        ∀ c ∈ ['\x7b', '(', '='], c ∉ word := by decide
    refine not_mem_of_words (by decide) fun word hmem => ?_
    rw [hwords, List.mem_append, List.mem_pair] at hmem
    rcases hmem with hmem | rfl | rfl
    · exact Or.inr (hall word (hkeywords word hmem))
    · exact Or.inl hname
    · exact Or.inl (by decide)
  have hnone {c : Char} {start rest : Text} (hc : c ∈ ['\x7b', '(', '='])
      (hbefore : before = start ++ c :: rest) : False :=
    hmark c hc (hbefore ▸ List.mem_append_right start List.mem_cons_self)
  cases h with
  | @plain front first heq =>
    obtain ⟨-, rfl, -⟩ := eq_of_last_words (hwords.symm.trans heq)
    exact List.suffix_append first _
  | @bindings front first inner hpart hbare heq =>
    rcases List.eq_nil_or_concat' (wordsOf inner) with hnil | ⟨more, last, hlast⟩
    · rw [hnil] at heq
      obtain ⟨-, rfl, -⟩ := eq_of_last_words (hwords.symm.trans heq)
      exact List.suffix_append first _
    · -- The identifier is among the bindings, and no brace comes before its dollar sign.
      have hsame : words ++ [name, "from".toList] =
          (front ++ (first ++ "import".toList) :: more) ++ [last, "from".toList] := by
        rw [← hwords, heq, hlast]
        simp only [List.append_assoc, List.cons_append, List.nil_append]
      obtain ⟨-, rfl, -⟩ := eq_of_last_words hsame
      have hmem : '$' ∈ inner := (Text.exists_mem_wordsOf_iff.mp
        ⟨name, hlast ▸ List.mem_append_right more List.mem_cons_self, hdollar⟩).1
      have hfree : ∀ c ∈ inner, decide (c ≠ '\x7b') = true := by
        intro c hc
        rw [decide_eq_true_eq]
        rintro rfl
        exact hmark '\x7b' (by decide) (hpart.subset hc)
      rw [StartsBare, List.takeWhile_eq_self_iff.mpr hfree] at hbare
      have hnot : ¬IsBare '$' := by
        unfold IsBare
        decide
      exact absurd (hbare '$' hmem) hnot
  | @types front more first heq =>
    have hmem : "type".toList ∈ words ++ [name, "from".toList] := by
      rw [← hwords, heq]
      simp
    rw [List.mem_append, List.mem_pair] at hmem
    rcases hmem with hmem | rfl | hfrom
    · exact absurd (hkeywords _ hmem) (by decide)
    · exact absurd hdollar (by decide)
    · exact absurd hfrom (by decide)
  | @effect front first heq =>
    rw [hwords, List.append_cons] at heq
    obtain ⟨-, hlast⟩ := List.append_inj' heq rfl
    have hsame : [] ++ "from".toList = first ++ "import".toList := (List.cons.inj hlast).1
    exact absurd hsame (append_ne (by decide) (by decide) (by decide))
  | @all front heq =>
    obtain ⟨-, rfl, -⟩ := eq_of_last_words (hwords.symm.trans heq)
    exact absurd hdollar (by decide)
  | @allAs front other hother heq =>
    obtain ⟨-, rfl, -⟩ := eq_of_last_words (hwords.symm.trans heq)
    exact absurd hdollar hother.not_mem_dollar
  | braces _ hbefore => exact (hnone (by decide) hbefore).elim
  | defaultBraces _ _ hbefore => exact (hnone (by decide) hbefore).elim
  | bound hbefore => exact (hnone (by decide) hbefore).elim
  | call hbefore => exact (hnone (by decide) hbefore).elim
  | freeCall hbefore => exact (hnone (by decide) hbefore).elim

/-- In an import of a default and of a name in braces, the word `import` can only be the first one
or the name in braces. -/
theorem next_of_import {first next : Text}
    (h : [first ++ "import".toList, next] <:+: ["import".toList, name ++ [','], ['\x7b'], inner,
      ['\x7d'], "from".toList]) :
    next = name ++ [','] ∨ next = ['\x7d'] := by
  have hcomma : first ++ "import".toList ≠ name ++ [','] :=
    append_ne (by decide) (by decide) (by decide)
  have hopen : first ++ "import".toList ≠ [] ++ ['\x7b'] :=
    append_ne (by decide) (by decide) (by decide)
  have hclose : first ++ "import".toList ≠ [] ++ ['\x7d'] :=
    append_ne (by decide) (by decide) (by decide)
  simp only [List.infix_cons_iff, List.cons_prefix_cons, List.prefix_nil, List.infix_nil] at h
  rcases h with ⟨-, rfl, -⟩ | ⟨h, -⟩ | ⟨h, -⟩ | ⟨-, rfl, -⟩ | ⟨h, -⟩ | ⟨-, h⟩ | h
  · exact Or.inl rfl
  · exact absurd h hcomma
  · exact absurd h hopen
  · exact Or.inr rfl
  · exact absurd h hclose
  · cases h
  · cases h

/-- A name, blanks and a comma are not the words after the first one of an import whose default has
a dollar sign. -/
theorem default_words_ne {other gap first : Text} {front : List Text} (hdollar : '$' ∈ name)
    (hother : IsName other) (hgap : IsBlank gap) :
    ["import".toList, name ++ [',']] ≠
      front ++ (first ++ "import".toList) :: wordsOf (other ++ (gap ++ [','])) := by
  intro h
  have hwords : wordsOf (other ++ (gap ++ [','])) = [name ++ [',']] := by
    match front, h with
    | [], h => exact (List.cons.inj h).2.symm
    | [_], h =>
      have hsame : name ++ [','] = first ++ "import".toList :=
        (List.cons.inj (List.cons.inj h).2).1
      exact absurd hsame (append_ne (by decide) (by decide) (by decide))
    | _ :: _ :: front, h =>
      have hnil := (List.cons.inj (List.cons.inj h).2).2
      exact absurd hnil.symm (by simp)
  by_cases hnone : gap = []
  · have hsolid : IsSolid (other ++ [',']) :=
      ⟨by simp, List.forall_mem_append.mpr ⟨hother.isSolid.2, by decide⟩⟩
    subst hnone
    have hsame := (List.cons.inj (hsolid.wordsOf.symm.trans hwords)).1
    rw [← List.append_cancel_right hsame] at hdollar
    exact hother.not_mem_dollar hdollar
  · rw [Text.wordsOf_word_gap hother.isSolid hgap hnone] at hwords
    have hcomma := hother.2 ',' ((List.cons.inj hwords).1 ▸ by simp)
    exact absurd hcomma (by decide)

/-- In an import of a default whose name has a dollar sign, and of a name in braces, no form finds
the reference. -/
theorem not_opens_names {start rest : Text} (hname : IsIdentifier name) (hdollar : '$' ∈ name)
    (hinner : IsIdentifier inner) (hbefore : before = start ++ '\x7b' :: rest)
    (hrest : '\x7b' ∉ rest) (hstart : wordsOf start = ["import".toList, name ++ [',']])
    (hwords : wordsOf before = ["import".toList, name ++ [','], ['\x7b'], inner, ['\x7d'],
      "from".toList]) : ¬Opens before := by
  have hmark : ∀ c ∈ ['(', '='], c ∉ before := by
    have hcomma : ∀ c ∈ ['(', '='], c ∉ name ++ [','] := by
      have hnone : ∀ c ∈ ['(', '='], Text.isWord c = false ∧ c ≠ '$' ∧ c ∉ [','] := by decide
      intro c hc
      obtain ⟨hword, hother, hcomma⟩ := hnone c hc
      exact List.mem_append.not.mpr (not_or.mpr ⟨hname.not_mem hword hother, hcomma⟩)
    refine not_mem_of_words (by decide) ?_
    rw [hwords]
    simp only [List.forall_mem_cons (p := fun word => IsIdentifier word ∨ _)]
    exact ⟨Or.inl (by decide), Or.inr hcomma, Or.inr (by decide), Or.inl hinner,
      Or.inr (by decide), Or.inl (by decide), nofun⟩
  have hnone {c : Char} {start rest : Text} (hc : c ∈ ['(', '='])
      (hbefore : before = start ++ c :: rest) : False :=
    hmark c hc (hbefore ▸ List.mem_append_right start List.mem_cons_self)
  have hfirst : '\x7b' ∉ start := by
    refine Text.not_mem_of_wordsOf (by decide) ?_
    rw [hstart]
    simp [hname.not_mem (c := '\x7b') (by decide) (by decide)]
  have hcut {other more : Text} (h : before = other ++ '\x7b' :: more) : other = start := by
    rw [hbefore] at h
    exact ((List.append_cons_inj_of_notMem hfirst hrest).mp h).1.symm
  have hnext {front more : List Text} {first next : Text}
      (h : wordsOf before = front ++ (first ++ "import".toList) :: next :: more) :
      next = name ++ [','] ∨ next = ['\x7d'] := by
    have hpart : [first ++ "import".toList, next] <:+: wordsOf before := by
      rw [h]
      exact ⟨front, more, by simp⟩
    rw [hwords] at hpart
    exact next_of_import hpart
  have hplain {word : Text} (h : word = name ++ [','] ∨ word = ['\x7d']) (hword : IsName word) :
      False := by
    rcases h with rfl | rfl
    · exact absurd (hword.2 ',' (by simp)) (by decide)
    · exact absurd hword (by decide)
  have hlast : wordsOf before =
      ["import".toList, name ++ [','], ['\x7b'], inner] ++ [['\x7d'], "from".toList] := hwords
  intro h
  cases h with
  | plain heq => exact hplain (hnext heq) (by decide)
  | @bindings front first inner hpart hbare heq =>
    cases hinside : wordsOf inner with
    | nil =>
      rw [hinside] at heq
      exact hplain (hnext heq) (by decide)
    | cons word more =>
      rw [hinside] at heq
      rcases hnext heq with rfl | rfl
      · have hbrace : '\x7b' ∉ name ++ [','] := by
          simp [hname.not_mem (c := '\x7b') (by decide) (by decide)]
        exact (hbare.first_word hinside hbrace).1 (List.mem_append_left _ hdollar)
      · exact (hbare.first_word hinside (by decide)).2 List.mem_cons_self
  | types heq => exact hplain (hnext heq) (by decide)
  | @effect front first heq =>
    rw [hlast, List.append_cons] at heq
    obtain ⟨-, hsame⟩ := List.append_inj' heq rfl
    have hsame : [] ++ "from".toList = first ++ "import".toList := (List.cons.inj hsame).1
    exact absurd hsame (append_ne (by decide) (by decide) (by decide))
  | all heq =>
    obtain ⟨-, hsame, -⟩ := eq_of_last_words (hlast.symm.trans heq)
    exact absurd hsame (by decide)
  | allAs hother heq =>
    obtain ⟨-, rfl, -⟩ := eq_of_last_words (hlast.symm.trans heq)
    exact absurd hother (by decide)
  | @braces front first word other more hword hother heq =>
    rw [hcut hother, hstart] at heq
    have hsplit : ["import".toList] ++ [name ++ [',']] = front ++ [first ++ word] := heq
    obtain ⟨-, hsame⟩ := List.append_inj' hsplit rfl
    have hends : ∀ word ∈ braceWords, word ≠ [] ∧ word.getLast? ≠ [','].getLast? := by decide
    obtain ⟨hne, hend⟩ := hends word hword
    exact append_ne hne (by decide) hend (List.cons.inj hsame).1.symm
  | @defaultBraces front first other gap head more hother hgap hhead heq =>
    rw [hcut hhead, hstart] at heq
    exact default_words_ne hdollar hother hgap heq
  | bound hother => exact (hnone (by decide) hother).elim
  | call hother => exact (hnone (by decide) hother).elim
  | freeCall hother => exact (hnone (by decide) hother).elim

/-- The word `require` and blanks at the end of a text are the word at its end. -/
theorem eq_of_append_require {start other gap : Text} (hgap : IsBlank gap)
    (h : other ++ "require".toList ++ gap = start ++ "=require".toList) :
    other = start ++ ['='] := by
  rcases List.eq_nil_or_concat' gap with rfl | ⟨blanks, c, rfl⟩
  · rw [List.append_nil] at h
    have hsplit : other ++ "require".toList = (start ++ ['=']) ++ "require".toList := by
      rw [h, List.append_assoc]
      rfl
    exact List.append_cancel_right hsplit
  · have hsplit : (other ++ "require".toList ++ blanks) ++ [c] =
        (start ++ "=requir".toList) ++ ['e'] := by
      rw [List.append_assoc, h, List.append_assoc]
      rfl
    obtain ⟨-, hend⟩ := List.append_inj' hsplit rfl
    have hblank := hgap c (List.mem_append_right blanks List.mem_cons_self)
    rw [(List.cons.inj hend).1] at hblank
    exact absurd hblank (by decide)

/-- Where a variable whose name has a dollar sign is bound without a blank before the call of
`require`, no form finds the reference. -/
theorem not_opens_closely {start : Text} (hname : IsIdentifier name) (hdollar : '$' ∈ name)
    (hbefore : before = start ++ "=require(".toList)
    (hstart : wordsOf start = ["const".toList, name])
    (hwords : wordsOf before = ["const".toList, name ++ "=require(".toList]) : ¬Opens before := by
  have hlast {front : List Text} {first word : Text} (hne : word ≠ [])
      (hend : word.getLast? ≠ "=require(".toList.getLast?) :
      wordsOf before ≠ front ++ [first ++ word] := by
    intro h
    have hsplit : ["const".toList] ++ [name ++ "=require(".toList] = front ++ [first ++ word] :=
      hwords.symm.trans h
    obtain ⟨-, hsame⟩ := List.append_inj' hsplit rfl
    exact append_ne hne (by decide) hend (List.cons.inj hsame).1.symm
  have hfrom {front : List Text} : wordsOf before ≠ front ++ [[] ++ "from".toList] :=
    hlast (by decide) (by decide)
  have hmark : ∀ c ∈ ['\x7b', '[', '=', '('], c ∉ start := by
    refine not_mem_of_words (by decide) fun word hmem => ?_
    rw [hstart, List.mem_pair] at hmem
    rcases hmem with rfl | rfl
    · exact Or.inl (by decide)
    · exact Or.inl hname
  have hbrace {other rest : Text} (h : before = other ++ '\x7b' :: rest) : False := by
    have hmem : '\x7b' ∈ start ++ "=require(".toList := by
      rw [← hbefore, h]
      exact List.mem_append_right other List.mem_cons_self
    rcases List.mem_append.mp hmem with hmem | hmem
    · exact hmark _ (by decide) hmem
    · exact absurd hmem (by decide)
  have hcall {other rest : Text} (h : before = other ++ '(' :: rest) :
      other = start ++ "=require".toList := by
    have hnone : '(' ∉ start ++ "=require".toList := by
      rw [List.mem_append, not_or]
      exact ⟨hmark _ (by decide), by decide⟩
    have hsplit : (start ++ "=require".toList) ++ '(' :: [] = other ++ '(' :: rest := by
      rw [← h, hbefore, List.append_assoc]
      rfl
    exact ((List.append_cons_inj_of_notMem hnone List.not_mem_nil).mp hsplit).1.symm
  intro h
  cases h with
  | plain heq => exact hfrom (heq.trans (List.append_cons _ _ _))
  | bindings _ _ heq =>
    rw [← List.cons_append, ← List.append_assoc] at heq
    exact hfrom heq
  | types heq =>
    rw [← List.cons_append, ← List.cons_append, ← List.append_assoc] at heq
    exact hfrom heq
  | effect heq => exact hlast (by decide) (by decide) heq
  | all heq => exact hfrom (heq.trans (List.append_cons _ _ _))
  | allAs _ heq => exact hfrom (heq.trans (List.append_cons _ _ _))
  | braces _ hother => exact hbrace hother
  | defaultBraces _ _ hother => exact hbrace hother
  | @bound other target rest hother htarget hpart heq =>
    have hother : other = start := by
      rw [hbefore] at hother
      exact ((List.append_cons_inj_of_notMem (hmark '=' (by decide)) (by decide)).mp hother).1.symm
    subst hother
    rcases htarget with htarget | htarget | htarget
    · obtain ⟨front, heq⟩ := heq htarget
      have hsplit : ["const".toList] ++ [name] = front ++ [target] := hstart.symm.trans heq
      obtain ⟨-, hsame⟩ := List.append_inj' hsplit rfl
      rw [(List.cons.inj hsame).1] at hdollar
      exact htarget.not_mem_dollar hdollar
    · exact hmark _ (by decide) (hpart.subset htarget)
    · exact hmark _ (by decide) (hpart.subset htarget)
  | @call front first other rest hother heq =>
    have hsolid : IsSolid "=require".toList := by decide
    obtain ⟨more, rest, hend⟩ := hsolid.exists_wordsOf_append start
    rw [hcall hother, hend] at heq
    obtain ⟨-, hsame⟩ := List.append_inj' heq rfl
    exact append_ne (by decide) (by decide) (by decide) (List.cons.inj hsame).1
  | @freeCall other gap rest hother hgap hfree =>
    obtain rfl := eq_of_append_require hgap (hcall hother)
    rcases hfree with hnil | ⟨front, c, hend, hc⟩
    · simp at hnil
    · exact hc (by simpa using (List.append_inj' hend rfl).2.symm)

end SourceLoom.Reference
