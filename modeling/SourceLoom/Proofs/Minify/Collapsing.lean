import Mathlib.Data.List.Chain
import SourceLoom.Proofs.Minify.Space
import SourceLoom.Proofs.Text.Lines

/-!
# Collapsed texts

A text is collapsed by three passes: every run of blanks becomes one space, the blanks beside marks
go, and then each semicolon right before a closing brace. No pass moves a character: the solid
characters stay in their order, and only those semicolons are lost. The passes keep apart what they
have set apart. Once no blank stands beside a blank, taking blanks away cannot bring two together,
and a semicolon that goes was a mark, so that neither of its neighbours is a blank.
-/

namespace SourceLoom.Minify

open Text

/-- A text without the semicolons that a closing brace follows at once. -/
def withoutLastSemicolons : Text → Text
  | [] => []
  | c :: rest =>
    if c = ';' ∧ rest.head? = some '\x7d' then withoutLastSemicolons rest
    else c :: withoutLastSemicolons rest

section Solid

/-- A blank in front adds nothing solid. -/
theorem solid_cons_blank {c : Char} (hc : isBlank c = true) (text : Text) :
    solid (c :: text) = solid text :=
  List.filter_cons_of_neg (by simp [hc])

/-- A solid character in front stays in front. -/
theorem solid_cons_solid {c : Char} (hc : isBlank c = false) (text : Text) :
    solid (c :: text) = c :: solid text :=
  List.filter_cons_of_pos (by simp [hc])

/-- The first solid character is the first one after the blanks at the beginning. -/
theorem head?_solid (text : Text) : (solid text).head? = (stripLeft text).head? := by
  rw [solid, List.head?_filter, stripLeft]
  exact List.find?_not_eq_head?_dropWhile isBlank text

/-- Squeezing runs of blanks leaves the solid characters. -/
theorem solid_squeeze (inRun : Bool) (text : Text) : solid (squeeze inRun text) = solid text := by
  induction text generalizing inRun with
  | nil => cases inRun <;> rfl
  | cons c text ih =>
    rw [squeeze]
    cases hc : isBlank c with
    | true =>
      rw [if_pos rfl, solid_cons_blank hc]
      cases inRun with
      | true => exact ih true
      | false => exact (solid_cons_blank (by decide) _).trans (ih true)
    | false =>
      rw [if_neg Bool.false_ne_true, solid_cons_solid hc, solid_cons_solid hc, ih]

/-- What is kept of the blanks before a character that is no mark. -/
def gap (afterMark : Bool) (pending : List Char) : Text := if afterMark then [] else pending.reverse

/-- Nothing solid is kept of blanks. -/
theorem solid_gap (afterMark : Bool) {pending : List Char}
    (hpending : ∀ c ∈ pending, isBlank c = true) : solid (gap afterMark pending) = [] := by
  cases afterMark with
  | true => rfl
  | false => exact solid_eq_nil.mpr fun c hc => hpending c (List.mem_reverse.mp hc)

/-- Removing the blanks beside marks leaves the solid characters. -/
theorem solid_tighten (afterMark : Bool) {pending : List Char}
    (hpending : ∀ c ∈ pending, isBlank c = true) (text : Text) :
    solid (tighten afterMark pending text) = solid text := by
  have hnone : ∀ c ∈ ([] : List Char), isBlank c = true := fun _ hc => absurd hc List.not_mem_nil
  induction text generalizing afterMark pending with
  | nil => exact solid_gap afterMark hpending
  | cons c text ih =>
    rw [tighten]
    cases hc : isBlank c with
    | true =>
      rw [if_pos rfl, solid_cons_blank hc]
      exact ih afterMark (List.forall_mem_cons.mpr ⟨hc, hpending⟩)
    | false =>
      rw [if_neg Bool.false_ne_true, solid_cons_solid hc]
      split
      · rw [solid_cons_solid hc, ih true hnone]
      · change solid (gap afterMark pending ++ c :: tighten false [] text) = c :: solid text
        rw [solid_append, solid_gap afterMark hpending, List.nil_append, solid_cons_solid hc,
          ih false hnone]

/-- Of the solid characters, only semicolons right before a closing brace are dropped. -/
theorem solid_dropSemicolons (dropping : Bool) (text : Text) :
    solid (dropSemicolons dropping text) = withoutLastSemicolons (solid text) := by
  induction text generalizing dropping with
  | nil => cases dropping <;> rfl
  | cons c text ih =>
    rw [dropSemicolons]
    cases hc : isBlank c with
    | true =>
      have hne : c ≠ ';' := by
        rintro rfl
        cases hc
      rw [solid_cons_blank hc]
      cases dropping with
      | true => rw [if_pos ⟨rfl, rfl⟩, ih]
      | false =>
        rw [if_neg (fun h => Bool.false_ne_true h.1), if_neg (fun h => hne h.1),
          solid_cons_blank hc, ih]
    | false =>
      rw [if_neg (fun h => Bool.false_ne_true h.2), solid_cons_solid hc, withoutLastSemicolons,
        head?_solid]
      split
      · exact ih true
      · rw [solid_cons_solid hc, ih]

/-- A collapsed text has the solid characters of the text, but for the semicolons right before
closing braces. -/
theorem solid_collapse (text : Text) :
    solid (collapse text) = withoutLastSemicolons (solid text) := by
  rw [collapse, solid_strip, solid_dropSemicolons,
    solid_tighten false fun _ hc => absurd hc List.not_mem_nil, solid_squeeze]

end Solid

section Length

/-- A run of blanks is no shorter than the space that stands for it. -/
theorem length_squeeze_le (inRun : Bool) (text : Text) :
    (squeeze inRun text).length ≤ text.length := by
  induction text generalizing inRun with
  | nil => cases inRun <;> exact Nat.le_refl 0
  | cons c text ih =>
    rw [squeeze]
    split
    · split
      · exact (ih true).trans (Nat.le_succ _)
      · exact Nat.succ_le_succ (ih true)
    · exact Nat.succ_le_succ (ih false)

/-- What is kept of blanks is among them. -/
theorem gap_sublist (afterMark : Bool) (pending : List Char) :
    (gap afterMark pending).Sublist pending.reverse := by
  cases afterMark with
  | true => exact List.nil_sublist _
  | false => exact List.Sublist.refl _

/-- Tightening only removes characters. -/
theorem tighten_sublist (afterMark : Bool) (pending text : Text) :
    (tighten afterMark pending text).Sublist (pending.reverse ++ text) := by
  induction text generalizing afterMark pending with
  | nil =>
    rw [tighten, List.append_nil]
    exact gap_sublist afterMark pending
  | cons c text ih =>
    rw [tighten]
    split
    · have hmore := ih afterMark (c :: pending)
      rwa [List.reverse_cons, List.append_assoc] at hmore
    · split
      · exact ((ih true []).cons_cons c).trans (List.sublist_append_right _ _)
      · exact (gap_sublist afterMark pending).append ((ih false []).cons_cons c)

/-- Dropping semicolons only removes characters. -/
theorem dropSemicolons_sublist (dropping : Bool) (text : Text) :
    (dropSemicolons dropping text).Sublist text := by
  induction text generalizing dropping with
  | nil => cases dropping <;> exact List.Sublist.refl _
  | cons c text ih =>
    rw [dropSemicolons]
    split
    · exact (ih true).cons c
    · split
      · exact (ih true).cons c
      · exact (ih false).cons_cons c

/-- What is left after squeezing is tightened, rid of semicolons and stripped. -/
theorem collapse_sublist (text : Text) : (collapse text).Sublist (squeeze false text) :=
  (strip_isInfix _).sublist.trans ((dropSemicolons_sublist false _).trans
    (tighten_sublist false [] _))

/-- A text does not grow when it is collapsed. -/
theorem length_collapse_le (text : Text) : (collapse text).length ≤ text.length :=
  (collapse_sublist text).length_le.trans (length_squeeze_le false text)

end Length

section Neighbours

/-- Whether two characters may be neighbours once runs of blanks are squeezed. -/
def AreApart (c d : Char) : Prop := isBlank c = true → isBlank d = false

/-- Whether two characters may be neighbours in a collapsed text: beside a blank stands neither
another blank nor a mark. -/
def MayMeet (c d : Char) : Prop :=
  (isBlank c = true → isBlank d = false ∧ isMark d = false) ∧
    (isBlank d = true → isBlank c = false ∧ isMark c = false)

variable {c d e : Char} {text : Text}

/-- Characters that are not blank may meet. -/
theorem mayMeet_of_solid (hc : isBlank c = false) (hd : isBlank d = false) : MayMeet c d :=
  ⟨fun h => absurd h (by simp [hc]), fun h => absurd h (by simp [hd])⟩

/-- The neighbours of a blank or a mark may meet when it is taken away. -/
theorem MayMeet.bridge (h : MayMeet c d) (hnext : MayMeet d e)
    (hd : isBlank d = true ∨ isMark d = true) : MayMeet c e := by
  have hc : isBlank c = false := by
    rcases hd with hd | hd
    · exact (h.2 hd).1
    · exact Bool.eq_false_iff.mpr fun hc => absurd hd (by simp [(h.1 hc).2])
  have he : isBlank e = false := by
    rcases hd with hd | hd
    · exact (hnext.1 hd).1
    · exact Bool.eq_false_iff.mpr fun he => absurd hd (by simp [(hnext.2 he).2])
  exact mayMeet_of_solid hc he

/-- A blank or a mark between two others may be taken away. -/
theorem isChain_bridge (h : (c :: d :: text).IsChain MayMeet)
    (hd : isBlank d = true ∨ isMark d = true) : (c :: text).IsChain MayMeet := by
  obtain ⟨hmeet, hrest⟩ := List.isChain_cons_cons.mp h
  obtain ⟨hnext, htext⟩ := List.isChain_cons.mp hrest
  exact List.isChain_cons.mpr ⟨fun e he => hmeet.bridge (hnext e he) hd, htext⟩

/-- After squeezing, no blank has a blank beside it, the character before the text included. -/
theorem isChain_squeeze (c : Char) (text : Text) :
    (c :: squeeze (isBlank c) text).IsChain AreApart := by
  induction text generalizing c with
  | nil => exact List.isChain_singleton c
  | cons d text ih =>
    rw [squeeze]
    cases hd : isBlank d with
    | true =>
      rw [if_pos rfl]
      have hspace : isBlank ' ' = true := by decide
      cases hc : isBlank c with
      | true => simpa [hc] using ih c
      | false =>
        have hrest := ih ' '
        rw [hspace] at hrest
        exact List.isChain_cons_cons.mpr ⟨fun h => absurd h (by simp [hc]), hrest⟩
    | false =>
      have hrest := ih d
      rw [hd] at hrest
      exact List.isChain_cons_cons.mpr ⟨fun _ => hd, hrest⟩

/-- Squeezing leaves no blank but the space. -/
theorem eq_space_of_mem_squeeze {inRun : Bool} (h : c ∈ squeeze inRun text)
    (hc : isBlank c = true) : c = ' ' := by
  induction text generalizing inRun with
  | nil => cases inRun <;> cases h
  | cons d text ih =>
    rw [squeeze] at h
    cases hd : isBlank d with
    | true =>
      rw [hd, if_pos rfl] at h
      split at h
      · exact ih h
      · exact (List.mem_cons.mp h).elim id ih
    | false =>
      rw [hd, if_neg Bool.false_ne_true] at h
      rcases List.mem_cons.mp h with rfl | h
      · rw [hc] at hd
        cases hd
      · exact ih h

/-- Blanks of which none stands beside another are at most one. -/
theorem eq_nil_or_singleton {pending : List Char} (hpending : ∀ d ∈ pending, isBlank d = true)
    (h : (pending.reverse ++ text).IsChain AreApart) : pending = [] ∨ ∃ d, pending = [d] := by
  match pending with
  | [] => exact Or.inl rfl
  | [d] => exact Or.inr ⟨d, rfl⟩
  | d :: e :: pending =>
    have hpair : [e, d] <:+: (d :: e :: pending).reverse ++ text :=
      ⟨pending.reverse, text, by simp⟩
    have hchain : [e, d].IsChain AreApart := List.IsChain.infix h hpair
    have hapart : isBlank d = false := List.isChain_pair.mp hchain (hpending e (by simp))
    rw [hpending d (by simp)] at hapart
    cases hapart

/-- What is kept of the blanks before a plain character stands beside no mark and no other blank. -/
theorem isChain_gap (hc : isBlank c = false) {pending : List Char}
    (hpending : ∀ d ∈ pending, isBlank d = true)
    (h : (pending.reverse ++ text).IsChain AreApart) {e : Char} (he : isBlank e = false)
    (hplain : isMark e = false) {rest : Text} (hrest : (e :: rest).IsChain MayMeet) :
    (c :: (gap (isMark c) pending ++ e :: rest)).IsChain MayMeet := by
  have hdirect : (c :: e :: rest).IsChain MayMeet :=
    List.isChain_cons_cons.mpr ⟨mayMeet_of_solid hc he, hrest⟩
  cases hmark : isMark c with
  | true => exact hdirect
  | false =>
    rcases eq_nil_or_singleton hpending h with rfl | ⟨d, rfl⟩
    · exact hdirect
    · have hbefore : MayMeet c d := ⟨fun h => absurd h (by simp [hc]), fun _ => ⟨hc, hmark⟩⟩
      have hafter : MayMeet d e := ⟨fun _ => ⟨he, hplain⟩, fun h => absurd h (by simp [he])⟩
      exact List.isChain_cons_cons.mpr ⟨hbefore, List.isChain_cons_cons.mpr ⟨hafter, hrest⟩⟩

/-- Where no blank stands beside another, tightening leaves no blank beside a mark, the character
before the text included. -/
theorem isChain_tighten (hc : isBlank c = false) {pending : List Char}
    (hpending : ∀ d ∈ pending, isBlank d = true)
    (h : (pending.reverse ++ text).IsChain AreApart) :
    (c :: tighten (isMark c) pending text).IsChain MayMeet := by
  have hnone : ∀ d ∈ ([] : List Char), isBlank d = true := fun _ hd => absurd hd List.not_mem_nil
  induction text generalizing c pending with
  | nil =>
    change (c :: gap (isMark c) pending).IsChain MayMeet
    cases hmark : isMark c with
    | true => exact List.isChain_singleton c
    | false =>
      rcases eq_nil_or_singleton hpending h with rfl | ⟨d, rfl⟩
      · exact List.isChain_singleton c
      · exact List.isChain_pair.mpr ⟨fun h => absurd h (by simp [hc]), fun _ => ⟨hc, hmark⟩⟩
  | cons d text ih =>
    have htext : text.IsChain AreApart := (List.isChain_cons.mp h.right_of_append).2
    rw [tighten]
    cases hd : isBlank d with
    | true =>
      rw [if_pos rfl]
      refine ih hc (List.forall_mem_cons.mpr ⟨hd, hpending⟩) ?_
      rwa [List.reverse_cons, List.append_assoc]
    | false =>
      rw [if_neg Bool.false_ne_true]
      have hrest := ih hd hnone htext
      split
      · rename_i hmark
        rw [hmark] at hrest
        exact List.isChain_cons_cons.mpr ⟨mayMeet_of_solid hc hd, hrest⟩
      · rename_i hmark
        rw [Bool.not_eq_true] at hmark
        rw [hmark] at hrest
        exact isChain_gap hc hpending h hd hmark hrest

/-- Dropping semicolons, and blanks after them, brings no blank beside a blank or a mark. -/
theorem isChain_dropSemicolons (dropping : Bool) (h : (c :: text).IsChain MayMeet) :
    (c :: dropSemicolons dropping text).IsChain MayMeet := by
  induction text generalizing c dropping with
  | nil => cases dropping <;> exact h
  | cons d text ih =>
    rw [dropSemicolons]
    split
    · rename_i hblank
      exact ih true (isChain_bridge h (Or.inl hblank.2))
    · split
      · rename_i hmark
        have hd : isMark d = true := by
          rw [hmark.1]
          decide
        exact ih true (isChain_bridge h (Or.inr hd))
      · obtain ⟨hmeet, hrest⟩ := List.isChain_cons_cons.mp h
        exact List.isChain_cons_cons.mpr ⟨hmeet, ih false hrest⟩

/-- In a collapsed text no blank stands beside a blank or a mark. -/
theorem isChain_collapse (text : Text) : (collapse text).IsChain MayMeet := by
  -- a letter before the text, which the passes leave alone, makes its beginning no special case
  have hletter : isBlank 'a' = false ∧ isMark 'a' = false := by decide
  have hsqueeze := isChain_squeeze 'a' text
  rw [hletter.1] at hsqueeze
  have hpending : ∀ d ∈ ([] : List Char), isBlank d = true := fun _ hd => absurd hd List.not_mem_nil
  have htighten := isChain_tighten hletter.1 hpending hsqueeze.tail
  rw [hletter.2] at htighten
  have hdropped := (isChain_dropSemicolons false htighten).tail
  exact List.IsChain.infix hdropped (strip_isInfix _)

/-- A text on one line in which spaces stand only where they are needed. -/
structure IsCollapsed (text : Text) : Prop where
  /-- The only blank is the space. -/
  spaces : ∀ c ∈ text, isBlank c = true → c = ' '
  /-- No two spaces are neighbours. -/
  single : ¬[' ', ' '] <:+: text
  /-- No space stands before a mark. -/
  before_mark : ∀ mark, isMark mark = true → ¬[' ', mark] <:+: text
  /-- No space stands after a mark. -/
  after_mark : ∀ mark, isMark mark = true → ¬[mark, ' '] <:+: text
  /-- The text does not begin with a space. -/
  starts : text.head? ≠ some ' '
  /-- The text does not end with a space. -/
  ends : text.getLast? ≠ some ' '

/-- A collapsed text has its spaces only where they are needed. -/
theorem collapse_isCollapsed (text : Text) : IsCollapsed (collapse text) := by
  have hspace : isBlank ' ' = true := by decide
  have hpair {c d : Char} (h : [c, d] <:+: collapse text) : MayMeet c d := by
    have hchain : [c, d].IsChain MayMeet := List.IsChain.infix (isChain_collapse text) h
    exact List.isChain_pair.mp hchain
  obtain ⟨hstarts, hends⟩ :=
    strip_ends (dropSemicolons false (tighten false [] (squeeze false text)))
  constructor
  case spaces =>
    exact fun c hc hblank => eq_space_of_mem_squeeze ((collapse_sublist text).subset hc) hblank
  case single =>
    intro h
    have hapart := ((hpair h).1 hspace).1
    rw [hspace] at hapart
    cases hapart
  case before_mark =>
    intro mark hmark h
    have hplain := ((hpair h).1 hspace).2
    rw [hmark] at hplain
    cases hplain
  case after_mark =>
    intro mark hmark h
    have hplain := ((hpair h).2 hspace).2
    rw [hmark] at hplain
    cases hplain
  case starts => exact fun h => absurd (hstarts ' ' h) (by simp [hspace])
  case ends => exact fun h => absurd (hends ' ' h) (by simp [hspace])

end Neighbours

/-- Where a file may be collapsed, the strongest level collapses its stripped lines. -/
theorem withoutBlanks_collapse {ending : Text} (h : ending ∈ collapsibleEndings) (text : Text) :
    withoutBlanks .aggressive ending text = collapse (strippedLines text) :=
  if_pos h

/-- A file that may be collapsed is of a family with comments. -/
theorem ofEnding_collapsible {ending : Text} (h : ending ∈ collapsibleEndings) :
    Family.ofEnding ending ≠ .data ∧ Family.ofEnding ending ≠ .other := by
  have hfamilies : ∀ ending ∈ collapsibleEndings,
      Family.ofEnding ending ≠ .data ∧ Family.ofEnding ending ≠ .other := by decide
  exact hfamilies ending h

/-- Where a file may be collapsed, it is minified, and the strongest level leaves spaces only where
they are needed. -/
theorem minify_isCollapsed {path : Path} (hpath : ending path ∈ collapsibleEndings)
    (content : Text) :
    ∃ output, minify content path .aggressive = .ok output ∧ IsCollapsed output := by
  obtain ⟨bare, hbare⟩ := exists_withoutComments (ofEnding_collapsible hpath).1 content
  refine ⟨_, minify_of_bare hbare .aggressive, ?_⟩
  rw [withoutBlanks_collapse hpath]
  exact collapse_isCollapsed _

/-- A script with runs of blanks, blanks of Unicode beside marks, and semicolons before a brace. -/
def spacedScript : Text := "  a \t=\u2003( b )\u00a0, c ;\n\n ; \x7d  d\u2028\u2028e ;\x7d ".toList

/-- It is left with the spaces that it needs. -/
theorem minify_isCollapsed_spaced :
    ending (.ofText "x.TS".toList) ∈ collapsibleEndings ∧
      minify spacedScript (.ofText "x.TS".toList) .aggressive =
        .ok "a =(b),c;\x7dd e\x7d".toList ∧
      IsCollapsed "a =(b),c;\x7dd e\x7d".toList := by
  have hpath : ending (.ofText "x.TS".toList) ∈ collapsibleEndings := by decide
  have hsmall : minify spacedScript (.ofText "x.TS".toList) .aggressive =
      .ok "a =(b),c;\x7dd e\x7d".toList := by decide
  obtain ⟨output, houtput, hcollapsed⟩ := minify_isCollapsed hpath spacedScript
  cases hsmall.symm.trans houtput
  exact ⟨hpath, hsmall, hcollapsed⟩

end SourceLoom.Minify
