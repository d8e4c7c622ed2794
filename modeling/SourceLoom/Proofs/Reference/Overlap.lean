import SourceLoom.Proofs.Reference.Statements

/-!
# Pieces that overlap

A search that passes over the place where a statement with braces begins has found an earlier piece
that goes on beyond that place. Such a piece does not hide the reference: its first closing brace
comes before its literal, so it cannot go on to a later literal, and if it ended with an earlier
literal it would not go on beyond the place. That leaves the literal of the statement itself, or a
literal that opens with the closing quote of an earlier one, and the reference of that one would end
with a brace and a tail.
-/

namespace SourceLoom.Reference

open Pattern

variable {references : List Text} {reference text : Text}

/-- A reference ends with a closing brace and a tail, so that its closing quote could open another
reference. -/
def IsOpen (reference : Text) : Prop :=
  ∃ start tail, reference = start ++ '\x7d' :: tail ∧ IsTail tail

section Texts

variable {s t u v : Text} {c : Char}

/-- After the first occurrence of a character comes what comes after any other. -/
theorem suffix_of_first (hc : c ∉ s) (h : s ++ c :: t = u ++ c :: v) : v <:+ t := by
  rcases List.append_eq_append_iff.mp h with ⟨more, -, hrest⟩ | ⟨more, rfl, hrest⟩
  · cases more with
    | nil => exact (List.cons.inj hrest).2 ▸ List.suffix_rfl
    | cons d more =>
      refine ⟨more ++ [c], ?_⟩
      rw [(List.cons.inj hrest).2, List.append_assoc]
      rfl
  · cases more with
    | nil => exact (List.cons.inj hrest).2 ▸ List.suffix_rfl
    | cons d more =>
      obtain ⟨rfl, -⟩ := List.cons.inj hrest
      exact absurd (List.mem_append_right u List.mem_cons_self) hc

/-- A quote before which a text without quotes ends belongs to what stands before that text. -/
theorem exists_append_quote (ht : QuoteFree t) (hc : c ∈ quotes) (h : s ++ t = u ++ c :: v) :
    ∃ more, s = u ++ c :: more ∧ v = more ++ t := by
  rcases List.append_eq_append_iff.mp h with ⟨more, rfl, rfl⟩ | ⟨more, rfl, hrest⟩
  · exact absurd hc (ht c (List.mem_append_right more List.mem_cons_self))
  · cases more with
    | nil =>
      have hmem : c ∈ t := by
        rw [← List.nil_append t, ← hrest]
        exact List.mem_cons_self
      exact absurd hc (ht c hmem)
    | cons d more =>
      obtain ⟨rfl, rfl⟩ := List.cons.inj hrest
      exact ⟨more, rfl, rfl⟩

/-- What may end a piece stops before a character that is neither blank nor a parenthesis. -/
theorem IsEnding.length_le (h : IsEnding s) (hblank : Text.isBlank c = false) (hc : c ≠ ')')
    (hwhole : s ++ t = u ++ c :: v) : s.length ≤ u.length := by
  rcases List.append_eq_append_iff.mp hwhole with ⟨more, rfl, -⟩ | ⟨more, rfl, hrest⟩
  · rw [List.length_append]
    exact Nat.le_add_right _ _
  · cases more with
    | nil => exact Nat.le_of_eq (congrArg List.length (List.append_nil u))
    | cons d more =>
      obtain ⟨rfl, -⟩ := List.cons.inj hrest
      rcases h with hnil | ⟨blanks, hblanks, hend⟩
      · exact absurd hnil (List.append_ne_nil_of_right_ne_nil _ (List.cons_ne_nil _ _))
      · have hmem : c ∈ blanks ++ [')'] := by
          rw [← hend]
          exact List.mem_append_right u List.mem_cons_self
        rcases List.mem_append.mp hmem with hmem | hmem
        · rw [hblanks c hmem] at hblank
          cases hblank
        · exact absurd (List.mem_singleton.mp hmem) hc

/-- A reference before which a quote stands, and at whose end a brace and a tail, is open. -/
theorem isOpen_of_append (ht : IsTail t) (hquote : QuoteFree t) (hc : c ∈ quotes)
    (h : s ++ '\x7d' :: t = u ++ c :: v) : IsOpen v := by
  rcases List.append_eq_append_iff.mp h with ⟨more, -, hrest⟩ | ⟨more, -, hrest⟩
  · have hmem : c ∈ '\x7d' :: t := by
      rw [hrest]
      exact List.mem_append_right more List.mem_cons_self
    rcases List.mem_cons.mp hmem with rfl | hmem
    · exact absurd hc (by decide)
    · exact absurd hc (hquote c hmem)
  · cases more with
    | nil =>
      obtain ⟨rfl, -⟩ := List.cons.inj hrest
      exact absurd hc (by decide)
    | cons d more => exact ⟨more, t, (List.cons.inj hrest).2, ht⟩

end Texts

section Pieces

variable {earlier opening tail literal rest first : Text}
  {other opening' tail' literal' ending rest' : Text}

/-- A piece that begins in a text before a statement, and goes on beyond that text, has the literal
of the statement. -/
theorem eq_of_overlap (hclosed : ∀ closed ∈ references, ¬IsOpen closed)
    (hearlier : Quoting references earlier) (hopening : QuoteFree opening)
    (hstart : ∃ c more, opening = c :: more ∧ Text.isBlank c = false ∧ c ≠ ')')
    (htail : QuoteFree tail) (hliteral : IsLiteral reference literal)
    (hopening' : '\x7d' ∉ opening') (htail' : IsTail tail') (hquote' : QuoteFree tail')
    (hliteral' : IsLiteral other literal') (hending : IsEnding ending) (hfirst : first <+: earlier)
    (hwhole : earlier ++ (opening ++ '\x7d' :: tail) ++ (literal ++ rest) =
      first ++ (opening' ++ '\x7d' :: tail') ++ (literal' ++ (ending ++ rest')))
    (hbeyond : earlier.length <
      (first ++ (opening' ++ '\x7d' :: tail')).length + literal'.length + ending.length) :
    other = reference := by
  obtain @⟨quote, quote₂, hquote, -, hreference, hquote₂⟩ := hliteral
  obtain @⟨mark, mark₂, hmark, -, hother, hmark₂⟩ := hliteral'
  rcases List.append_eq_append_iff.mp hwhole with ⟨more, hbefore, hafter⟩ | ⟨more, hbefore, hafter⟩
  · cases more with
    | nil =>
      simp only [List.nil_append, List.append_assoc, List.cons_append] at hafter
      obtain ⟨-, hsame⟩ := List.cons.inj hafter
      exact (eq_of_first_quote hreference hother hquote₂ hmark₂ hsame).1.symm
    | cons c more =>
      -- The first closing brace of the piece comes before the literal, so its tail would too.
      obtain ⟨between, rfl⟩ := hfirst
      obtain ⟨rfl, -⟩ := List.cons.inj hafter
      have htails : opening' ++ '\x7d' :: tail' =
          (between ++ opening) ++ '\x7d' :: (tail ++ quote :: more) := by
        simpa only [List.append_assoc, List.cons_append, List.append_cancel_left_eq] using hbefore
      have hsuffix := suffix_of_first hopening' htails
      exact absurd hquote
        (hquote' quote (hsuffix.subset (List.mem_append_right tail List.mem_cons_self)))
  · cases more with
    | nil =>
      simp only [List.nil_append, List.append_assoc, List.cons_append] at hafter
      obtain ⟨-, hsame⟩ := List.cons.inj hafter
      exact (eq_of_first_quote hother hreference hmark₂ hquote₂ hsame).1
    | cons c more =>
      obtain ⟨rfl, hafter⟩ := List.cons.inj hafter
      have hfree : QuoteFree (opening ++ '\x7d' :: tail) :=
        quoteFree_append.mpr ⟨hopening, quoteFree_cons.mpr ⟨by decide, htail⟩⟩
      obtain ⟨after, rfl, rfl⟩ := exists_append_quote hfree hmark hbefore
      rcases quoteFree_or_first after with hfreeAfter | ⟨inner, d, after, rfl, hinner, hd⟩
      · -- The quote that opens the literal closes the last reference before the statement.
        obtain ⟨closed, hmem, start, c, hc, hfront⟩ := hearlier.before_last hmark hfreeAfter
        rw [← List.append_assoc] at hfront
        exact absurd (isOpen_of_append htail' hquote' hc hfront) (hclosed closed hmem)
      · -- The literal ends before the statement, so the piece does not go on beyond that.
        simp only [List.append_assoc, List.cons_append, List.nil_append] at hafter
        obtain ⟨rfl, rfl, hends⟩ :=
          eq_of_first_quote hother hinner hmark₂ hd (List.cons.inj hafter).2
        obtain ⟨c, opening, rfl, hblank, hparenthesis⟩ := hstart
        have hlength := hending.length_le hblank hparenthesis hends
        simp only [List.length_append, List.length_cons, List.length_nil] at hbeyond
        omega

end Pieces

section Search

variable {form : Pattern}

/-- The forms that may spread over lines are regular, and they are forms. -/
theorem isRegular_of_mem_textForms (h : form ∈ textForms) : form.isRegular = true := by
  have hall : ∀ form ∈ textForms, form.isRegular = true := by decide
  exact hall form h

/-- Where no reference is open, a form that may spread over lines finds only references that are
quoted. -/
theorem mem_of_mem_found {after : Text} (hform : form ∈ textForms)
    (hclosed : ∀ closed ∈ references, ¬IsOpen closed)
    (hquoting : Quoting references (text ++ after)) (h : reference ∈ found form text) :
    reference ∈ references := by
  obtain ⟨last, hlast, hgroup⟩ := List.mem_filterMap.mp h
  obtain ⟨start, place, hplace, hways⟩ := exists_of_mem_findAll hlast
  obtain ⟨piece, memory, hpiece, hreads⟩ :=
    (mem_ways_iff (isRegular_of_mem_textForms hform)).mp hways
  obtain ⟨opening, tail, captured, literal, ending, rfl, -, htail, hliteral, -, rfl⟩ :=
    hasTail_of_mem hform hpiece
  rw [Cursor.group?, hreads.groups] at hgroup
  obtain rfl : captured = reference := Option.some.inj hgroup
  have htext : text = start ++ place.after := hplace.after
  have hwhole : text ++ after =
      start ++ opening ++ '\x7d' :: tail ++ literal ++ (ending ++ last.after ++ after) := by
    rw [htext, hreads.after]
    simp only [List.append_assoc, List.cons_append]
  rw [hwhole] at hquoting
  rcases hquoting.of_isLiteral_mem hliteral with hmem | ⟨before, closed, next, later, rfl, hopen⟩
  · exact hmem
  · obtain ⟨front, c, hc, hfront⟩ := hopen
    have hmem : closed ∈ before ++ closed :: next :: later :=
      List.mem_append_right before List.mem_cons_self
    exact absurd (isOpen_of_append htail htail.quoteFree hc hfront) (hclosed closed hmem)

/-- Where no reference before it is open, the reference of a piece with its first closing brace
before a tail is found. -/
theorem mem_found_of_describes {earlier opening tail literal ending rest : Text} {memory : Memory}
    (hform : form ∈ textForms) (hclosed : ∀ closed ∈ references, ¬IsOpen closed)
    (hearlier : Quoting references earlier) (hopening : QuoteFree opening)
    (hstart : ∃ c more, opening = c :: more ∧ Text.isBlank c = false ∧ c ≠ ')')
    (htail : QuoteFree tail) (hliteral : IsLiteral reference literal)
    (hpiece : form.Describes (opening ++ '\x7d' :: tail ++ literal ++ ending) memory) :
    reference ∈ found form
      (earlier ++ (opening ++ '\x7d' :: tail ++ literal ++ ending) ++ rest) := by
  have hregular := isRegular_of_mem_textForms hform
  generalize hwhole : earlier ++ (opening ++ '\x7d' :: tail ++ literal ++ ending) ++ rest = whole
  have htext : (Cursor.start whole).after =
      earlier ++ ((opening ++ '\x7d' :: tail ++ literal ++ ending) ++ rest) :=
    hwhole.symm.trans (List.append_assoc _ _ _)
  obtain ⟨place, hplace⟩ : ∃ place, (Cursor.start whole).Reads earlier [] place :=
    ⟨⟨earlier.reverse ++ [], _, _, rfl, []⟩, htext, rfl, rfl⟩
  have hafter : place.after = (opening ++ '\x7d' :: tail ++ literal ++ ending) ++ rest :=
    List.append_cancel_left (hplace.after.symm.trans htext)
  have hne : place.after ≠ [] := by
    rw [hafter]
    simp
  obtain ⟨first, between, early, last, hearly, hbetween, hlast, hways, hbeyond⟩ :=
    exists_mem_findAll hplace hne (ways_ne_nil hregular hpiece hafter)
  obtain ⟨piece, memory', hpiece', hreads⟩ := (mem_ways_iff hregular).mp hways
  obtain ⟨opening', tail', other, literal', ending', rfl, hopening', htail', hliteral', hending,
    rfl⟩ := hasTail_of_mem hform hpiece'
  have hgroup : last.group? 1 = some other := by
    rw [Cursor.group?, hreads.groups]
    rfl
  have hsplit : earlier = first ++ between :=
    List.append_cancel_right (hplace.after.symm.trans (hearly.trans hbetween).after)
  have hequal : earlier ++ (opening ++ '\x7d' :: tail) ++ (literal ++ (ending ++ rest)) =
      first ++ (opening' ++ '\x7d' :: tail') ++ (literal' ++ (ending' ++ last.after)) := by
    have h := htext.symm.trans (hearly.trans hreads).after
    simpa only [List.append_assoc, List.cons_append] using h
  have hlength : earlier.length <
      (first ++ (opening' ++ '\x7d' :: tail')).length + literal'.length + ending'.length := by
    have hpositive : 0 < literal'.length := by
      obtain ⟨-, -, -, -⟩ := hliteral'
      exact Nat.succ_pos _
    have hleft := (hearly.trans hreads).left_eq.symm.trans hplace.left_eq
    simp only [List.length_append, List.length_cons] at hleft ⊢
    rcases hbeyond with rfl | hbeyond
    · rw [hsplit, List.append_nil]
      omega
    · omega
  have hsame : other = reference :=
    eq_of_overlap hclosed hearlier hopening hstart htail hliteral hopening' htail' htail'.quoteFree
      hliteral' hending ⟨between, hsplit.symm⟩ hequal hlength
  rw [← hsame]
  exact List.mem_filterMap.mpr ⟨last, hlast, hgroup⟩

end Search

end SourceLoom.Reference
