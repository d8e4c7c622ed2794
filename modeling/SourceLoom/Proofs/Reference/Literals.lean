import Mathlib.Data.List.Basic
import SourceLoom.Reference.Extraction

/-!
# Quoted references in a text

In a text that quotes some references, one after the other, any two neighbouring quotes are either
those around one of the references, or the closing quote of one reference and the opening quote of
the next. So what stands between two quotes is one of the references, unless what stands before
the first of the two quotes ends with one.
-/

namespace SourceLoom.Reference

/-- Whether all characters of a text have a property is tested on the text, not on all characters
there are. -/
instance decidableForallMem (p : Char → Prop) [DecidablePred p] (text : Text) :
    Decidable (∀ c ∈ text, p c) := List.decidableBAll p text

/-- No quote is in a text. -/
def QuoteFree (text : Text) : Prop := ∀ c ∈ text, c ∉ quotes

/-- Texts can be tested for quotes. -/
instance (text : Text) : Decidable (QuoteFree text) := by
  unfold QuoteFree
  infer_instance

/-- No quote is in two texts together just when none is in either. -/
theorem quoteFree_append {s t : Text} : QuoteFree (s ++ t) ↔ QuoteFree s ∧ QuoteFree t :=
  List.forall_mem_append

/-- No quote is in a text that begins with a character just when that is none and none follows. -/
theorem quoteFree_cons {c : Char} {t : Text} : QuoteFree (c :: t) ↔ c ∉ quotes ∧ QuoteFree t :=
  List.forall_mem_cons

/-- A text with a reference between two quotes. -/
inductive IsLiteral (reference : Text) : Text → Prop
  /-- A quote, the reference and a quote. -/
  | mk {opening closing : Char} : opening ∈ quotes → reference ≠ [] → QuoteFree reference →
      closing ∈ quotes → IsLiteral reference (opening :: reference ++ [closing])

section Splitting

variable {s t x y : Text} {c d : Char}

/-- A text has only one first quote. -/
theorem eq_of_first_quote (hs : QuoteFree s) (ht : QuoteFree t) (hc : c ∈ quotes)
    (hd : d ∈ quotes) (h : s ++ c :: x = t ++ d :: y) : s = t ∧ c = d ∧ x = y := by
  induction s generalizing t with
  | nil =>
    cases t with
    | nil =>
      obtain ⟨rfl, rfl⟩ := List.cons.inj h
      exact ⟨rfl, rfl, rfl⟩
    | cons e t =>
      obtain ⟨rfl, -⟩ := List.cons.inj h
      exact absurd hc (quoteFree_cons.mp ht).1
  | cons e s ih =>
    cases t with
    | nil =>
      obtain ⟨rfl, -⟩ := List.cons.inj h
      exact absurd hd (quoteFree_cons.mp hs).1
    | cons f t =>
      obtain ⟨rfl, hrest⟩ := List.cons.inj h
      obtain ⟨rfl, hsame⟩ := ih (quoteFree_cons.mp hs).2 (quoteFree_cons.mp ht).2 hrest
      exact ⟨rfl, hsame⟩

/-- A text has no quote or a first one. -/
theorem quoteFree_or_first (text : Text) :
    QuoteFree text ∨ ∃ s c t, text = s ++ c :: t ∧ QuoteFree s ∧ c ∈ quotes := by
  induction text with
  | nil => exact Or.inl nofun
  | cons c text ih =>
    by_cases hc : c ∈ quotes
    · exact Or.inr ⟨[], c, text, rfl, nofun, hc⟩
    · rcases ih with hfree | ⟨s, d, t, rfl, hs, hd⟩
      · exact Or.inl (quoteFree_cons.mpr ⟨hc, hfree⟩)
      · exact Or.inr ⟨c :: s, d, t, rfl, quoteFree_cons.mpr ⟨hc, hs⟩, hd⟩

end Splitting

/-- A text in which the given references are quoted, one after the other, and nothing else. -/
inductive Quoting : List Text → Text → Prop
  /-- Nothing is quoted. -/
  | nil {text : Text} : QuoteFree text → Quoting [] text
  /-- A reference is quoted, and after it others. -/
  | cons {references : List Text} {text reference rest : Text} {opening closing : Char} :
      QuoteFree text → opening ∈ quotes → QuoteFree reference → closing ∈ quotes →
        Quoting references rest →
          Quoting (reference :: references) (text ++ opening :: reference ++ closing :: rest)

namespace Quoting

variable {references others : List Text} {text more : Text}

/-- A text without quotes before another changes nothing. -/
theorem prepend (hmore : QuoteFree more) (h : Quoting references text) :
    Quoting references (more ++ text) := by
  cases h with
  | nil hfree => exact .nil (quoteFree_append.mpr ⟨hmore, hfree⟩)
  | cons hfree hopening hreference hclosing hrest =>
    have hnew := cons (quoteFree_append.mpr ⟨hmore, hfree⟩) hopening hreference hclosing hrest
    simpa only [List.append_assoc] using hnew

/-- Texts that stand one after the other quote what they quote. -/
theorem append (h : Quoting references text) (hmore : Quoting others more) :
    Quoting (references ++ others) (text ++ more) := by
  induction h with
  | nil hfree => exact hmore.prepend hfree
  | cons hfree hopening hreference hclosing hrest ih =>
    have hnew := cons hfree hopening hreference hclosing ih
    simpa only [List.append_assoc, List.cons_append] using hnew

/-- A literal quotes its reference. -/
theorem of_isLiteral {reference literal : Text} (h : IsLiteral reference literal) :
    Quoting [reference] literal := by
  obtain ⟨hopening, -, hreference, hclosing⟩ := h
  have hempty : QuoteFree [] := nofun
  exact cons hempty hopening hreference hclosing (.nil hempty)

/-- A literal between texts without quotes quotes its reference. -/
theorem around {before reference literal after : Text} (hbefore : QuoteFree before)
    (hliteral : IsLiteral reference literal) (hafter : QuoteFree after) :
    Quoting [reference] (before ++ (literal ++ after)) :=
  ((of_isLiteral hliteral).append (.nil hafter)).prepend hbefore

/-- Before the last quote of a text stands one of the references, after its opening quote. -/
theorem before_last {c : Char} (h : Quoting references (text ++ c :: more)) (hc : c ∈ quotes)
    (hmore : QuoteFree more) :
    ∃ reference ∈ references, ∃ start, ∃ opening ∈ quotes, text = start ++ opening :: reference := by
  generalize hwhole : text ++ c :: more = whole at h
  induction h generalizing text with
  | nil hfree =>
    rw [← hwhole, quoteFree_append, quoteFree_cons] at hfree
    exact absurd hc hfree.2.1
  | @cons references first reference rest opening closing hfirst hopening hreference hclosing
      hrest ih =>
    rw [List.append_assoc, List.cons_append] at hwhole
    rcases quoteFree_or_first text with htext | ⟨start, d, tail, rfl, hstart, hd⟩
    · -- The last quote cannot be the opening quote, since the closing quote comes after it.
      obtain ⟨-, -, hmore'⟩ := eq_of_first_quote htext hfirst hc hopening hwhole
      rw [hmore', quoteFree_append, quoteFree_cons] at hmore
      exact absurd hclosing hmore.2.1
    · rw [List.append_assoc, List.cons_append] at hwhole
      obtain ⟨rfl, rfl, hinner⟩ := eq_of_first_quote hstart hfirst hd hopening hwhole
      rcases quoteFree_or_first tail with htail | ⟨middle, e, tail, rfl, hmiddle, he⟩
      · obtain ⟨rfl, -, -⟩ := eq_of_first_quote htail hreference hc hclosing hinner
        exact ⟨tail, List.mem_cons_self, start, d, hd, rfl⟩
      · rw [List.append_assoc, List.cons_append] at hinner
        obtain ⟨rfl, rfl, hlater⟩ := eq_of_first_quote hmiddle hreference he hclosing hinner
        obtain ⟨last, hlast, between, f, hf, rfl⟩ := ih hlater
        refine ⟨last, List.mem_cons_of_mem _ hlast, start ++ d :: middle ++ e :: between, f, hf, ?_⟩
        simp only [List.append_assoc, List.cons_append]

/-- Between two quotes stands one of the references, unless one and its opening quote stand before
the first of the two; then another one follows. -/
theorem of_isLiteral_mem {before reference literal after : Text}
    (h : Quoting references (before ++ literal ++ after)) (hliteral : IsLiteral reference literal) :
    reference ∈ references ∨ ∃ earlier last next later,
      references = earlier ++ last :: next :: later ∧
        ∃ start, ∃ opening ∈ quotes, before = start ++ opening :: last := by
  obtain @⟨c, d, hc, -, hbetween, hd⟩ := hliteral
  generalize hwhole : before ++ (c :: reference ++ [d]) ++ after = whole at h
  have hparts : before ++ c :: (reference ++ d :: after) = whole := by
    rw [← hwhole]
    simp only [List.append_assoc, List.cons_append, List.nil_append]
  clear hwhole
  induction h generalizing before with
  | nil hfree =>
    rw [← hparts, quoteFree_append, quoteFree_cons] at hfree
    exact absurd hc hfree.2.1
  | @cons references first quoted rest opening closing hfirst hopening hquoted hclosing hrest ih =>
    rw [List.append_assoc, List.cons_append] at hparts
    rcases quoteFree_or_first before with hbefore | ⟨start, e, tail, rfl, hstart, he⟩
    · obtain ⟨-, -, hinner⟩ := eq_of_first_quote hbefore hfirst hc hopening hparts
      obtain ⟨rfl, -, -⟩ := eq_of_first_quote hbetween hquoted hd hclosing hinner
      exact Or.inl List.mem_cons_self
    · rw [List.append_assoc, List.cons_append] at hparts
      obtain ⟨rfl, rfl, hinner⟩ := eq_of_first_quote hstart hfirst he hopening hparts
      rcases quoteFree_or_first tail with htail | ⟨middle, f, tail, rfl, hmiddle, hf⟩
      · -- The first of the two quotes closes the first reference.
        obtain ⟨rfl, -, hnext⟩ := eq_of_first_quote htail hquoted hc hclosing hinner
        cases hrest with
        | nil hfree =>
          rw [← hnext, quoteFree_append, quoteFree_cons] at hfree
          exact absurd hd hfree.2.1
        | @cons later _ next _ _ _ _ _ _ _ _ =>
          exact Or.inr ⟨[], tail, next, later, rfl, start, e, he, rfl⟩
      · rw [List.append_assoc, List.cons_append] at hinner
        obtain ⟨rfl, rfl, hlater⟩ := eq_of_first_quote hmiddle hquoted hf hclosing hinner
        rcases ih hlater with hmem | ⟨earlier, last, next, later, rfl, between, g, hg, rfl⟩
        · exact Or.inl (List.mem_cons_of_mem _ hmem)
        · refine Or.inr ⟨middle :: earlier, last, next, later, rfl,
            start ++ e :: middle ++ f :: between, g, hg, ?_⟩
          simp only [List.append_assoc, List.cons_append]

/-- Where only one reference is quoted, no other stands between two quotes. -/
theorem eq_of_isLiteral {before reference literal after single : Text}
    (h : Quoting [single] (before ++ literal ++ after)) (hliteral : IsLiteral reference literal) :
    reference = single := by
  rcases h.of_isLiteral_mem hliteral with hmem | ⟨earlier, last, next, later, hlist, -⟩
  · exact List.mem_singleton.mp hmem
  · have hlength := congrArg List.length hlist
    simp only [List.length_append, List.length_cons, List.length_nil] at hlength
    omega

end Quoting

end SourceLoom.Reference
