import Mathlib.Data.List.Forall2
import SourceLoom.Proofs.Text.Lines
import SourceLoom.Proofs.Text.Solid

/-!
# Pieces in order

Pieces stand in order in a text if they stand there one after the other, with anything before,
between and after them. Pieces that are on one line and neither begin nor end with a blank stay in
order where a text is cut into lines, its lines are stripped, blank lines are left out, and the
others are joined again.
-/

namespace SourceLoom.Text

/-- The pieces stand in a text one after the other. -/
inductive InOrder : List Text → Text → Prop
  /-- No piece stands in any text. -/
  | nil {text : Text} : InOrder [] text
  /-- A piece stands somewhere, and the others after it. -/
  | cons {pieces : List Text} {before piece rest : Text} :
      InOrder pieces rest → InOrder (piece :: pieces) (before ++ (piece ++ rest))

/-- A piece is on one line, and it neither begins nor ends with a blank. -/
structure IsTight (piece : Text) : Prop where
  /-- No line feed is in it. -/
  no_feed : '\n' ∉ piece
  /-- It begins with a character that is not blank. -/
  starts : ∃ c rest, piece = c :: rest ∧ isBlank c = false
  /-- It ends with a character that is not blank. -/
  ends : ∃ front c, piece = front ++ [c] ∧ isBlank c = false

variable {pieces others : List Text} {text more before after piece : Text}

namespace InOrder

/-- More text may stand before the pieces. -/
theorem prepend (h : InOrder pieces text) (before : Text) : InOrder pieces (before ++ text) := by
  cases h with
  | nil => exact .nil
  | cons h =>
    rw [← List.append_assoc]
    exact .cons h

/-- A text is a piece of itself. -/
theorem whole (text : Text) : InOrder [text] text := by
  have h : InOrder [text] ([] ++ (text ++ [])) := .cons .nil
  rwa [List.nil_append, List.append_nil] at h

/-- Pieces in two texts stand in both together. -/
theorem append (h : InOrder pieces text) (hmore : InOrder others more) :
    InOrder (pieces ++ others) (text ++ more) := by
  induction h with
  | nil => exact hmore.prepend _
  | cons _ ih =>
    simp only [List.append_assoc]
    exact .cons ih

/-- The characters of the pieces are among those of the text, in order. -/
theorem sublist (h : InOrder pieces text) : pieces.flatten.Sublist text := by
  induction h with
  | nil => exact List.nil_sublist _
  | @cons _ before _ _ _ ih =>
    exact ((List.Sublist.refl _).append ih).trans (List.sublist_append_right before _)

/-- Pieces that do not begin with a blank stand after the blanks at the beginning. -/
theorem of_blank_append (h : InOrder pieces (before ++ text))
    (htight : ∀ piece ∈ pieces, IsTight piece) (hbefore : ∀ c ∈ before, isBlank c = true) :
    InOrder pieces text := by
  induction before with
  | nil => exact h
  | cons c before ih =>
    obtain ⟨hc, hbefore⟩ := List.forall_mem_cons.mp hbefore
    refine ih ?_ hbefore
    generalize hwhole : c :: before ++ text = whole at h
    cases h with
    | nil => exact .nil
    | @cons pieces first piece rest h =>
      cases first with
      | nil =>
        obtain ⟨d, tail, rfl, hd⟩ := (htight _ List.mem_cons_self).starts
        obtain ⟨rfl, -⟩ := List.cons.inj hwhole
        rw [hc] at hd
        cases hd
      | cons d first =>
        have hrest : before ++ text = first ++ (piece ++ rest) := (List.cons.inj hwhole).2
        rw [hrest]
        exact .cons h

/-- Pieces that do not end with a blank stand before a blank at the end. -/
theorem of_append_blank {c : Char} (h : InOrder pieces (text ++ [c]))
    (htight : ∀ piece ∈ pieces, IsTight piece) (hc : isBlank c = true) : InOrder pieces text := by
  generalize hwhole : text ++ [c] = whole at h
  induction h generalizing text with
  | nil => exact .nil
  | @cons pieces first piece rest h ih =>
    obtain ⟨hpiece, hpieces⟩ := List.forall_mem_cons.mp htight
    rcases List.eq_nil_or_concat' rest with rfl | ⟨front, d, rfl⟩
    · obtain ⟨kept, d, rfl, hd⟩ := hpiece.ends
      rw [List.append_nil, ← List.append_assoc] at hwhole
      obtain ⟨-, hlast⟩ := List.append_inj' hwhole rfl
      cases hlast
      rw [hc] at hd
      cases hd
    · rw [← List.append_assoc, ← List.append_assoc] at hwhole
      obtain ⟨rfl, hlast⟩ := List.append_inj' hwhole rfl
      rw [List.append_assoc]
      exact .cons (ih hpieces (congrArg (front ++ ·) hlast))

/-- Tight pieces stay in order when blanks at the end are taken away. -/
theorem of_append_blanks (h : InOrder pieces (text ++ after))
    (htight : ∀ piece ∈ pieces, IsTight piece) (hafter : ∀ c ∈ after, isBlank c = true) :
    InOrder pieces text := by
  induction after using List.reverseRecOn with
  | nil => rwa [List.append_nil] at h
  | append_singleton after c ih =>
    obtain ⟨hafter, hc⟩ := List.forall_mem_append.mp hafter
    rw [← List.append_assoc] at h
    exact ih (h.of_append_blank htight (hc c (List.mem_singleton_self c))) hafter

/-- Tight pieces stay in order when a text is stripped. -/
theorem strip (h : InOrder pieces text) (htight : ∀ piece ∈ pieces, IsTight piece) :
    InOrder pieces (strip text) := by
  obtain ⟨before, after, hbefore, hafter, htext⟩ := exists_strip text
  rw [htext, List.append_assoc] at h
  exact (h.of_blank_append htight hbefore).of_append_blanks htight hafter

/-- No tight piece stands in a blank text. -/
theorem eq_nil_of_blank (h : InOrder pieces text) (htight : ∀ piece ∈ pieces, IsTight piece)
    (hblank : Text.strip text = []) : pieces = [] := by
  have hstripped := h.strip htight
  rw [hblank] at hstripped
  have hempty := List.sublist_nil.mp hstripped.sublist
  cases pieces with
  | nil => rfl
  | cons piece pieces =>
    obtain ⟨c, rest, hpiece, -⟩ := (htight piece List.mem_cons_self).starts
    rw [List.flatten_cons, hpiece] at hempty
    cases hempty

end InOrder

section Lines

variable {groups : List (List Text)} {lines : List Text}

/-- Some pieces stand in order in each of the lines. -/
abbrev InLines (groups : List (List Text)) (lines : List Text) : Prop :=
  List.Forall₂ InOrder groups lines

/-- Pieces without line feeds that stand in order in a text stand in its lines. -/
theorem InOrder.splitOn (h : InOrder pieces text) (hfeed : ∀ piece ∈ pieces, '\n' ∉ piece) :
    ∃ groups, InLines groups (splitOn '\n' text) ∧ groups.flatten = pieces := by
  have hbefore (before text : Text) (pieces : List Text)
      (h : ∃ groups, InLines groups (Text.splitOn '\n' text) ∧ groups.flatten = pieces) :
      ∃ groups, InLines groups (Text.splitOn '\n' (before ++ text)) ∧
        groups.flatten = pieces := by
    induction before with
    | nil => exact h
    | cons c before ih =>
      obtain ⟨groups, hgroups, hflatten⟩ := ih
      rw [List.cons_append, Text.splitOn]
      split
      · exact ⟨[] :: groups, .cons .nil hgroups, hflatten⟩
      · generalize Text.splitOn '\n' (before ++ text) = lines at hgroups
        cases hgroups with
        | nil => exact ⟨[], .nil, hflatten⟩
        | cons hfirst hrest => exact ⟨_, .cons (hfirst.prepend [c]) hrest, hflatten⟩
  induction h with
  | @nil text =>
    refine ⟨(Text.splitOn '\n' text).map fun _ => [], ?_, ?_⟩
    · exact List.forall₂_map_left_iff.mpr (List.forall₂_same.mpr fun _ _ => .nil)
    · simp
  | @cons pieces before piece rest _ ih =>
    obtain ⟨hpiece, hpieces⟩ := List.forall_mem_cons.mp hfeed
    obtain ⟨groups, hgroups, hflatten⟩ := ih hpieces
    refine hbefore before _ _ ?_
    rw [splitOn_append_of_not_mem hpiece]
    obtain ⟨line, more, hlines⟩ := List.exists_cons_of_ne_nil (splitOn_ne_nil '\n' rest)
    rw [hlines] at hgroups ⊢
    cases hgroups with
    | @cons first _ others _ hfirst hrest =>
      refine ⟨(piece :: first) :: others, .cons ?_ hrest, ?_⟩
      · exact (InOrder.cons hfirst : InOrder (piece :: first) ([] ++ (piece ++ line)))
      · rw [← hflatten]
        rfl

/-- Pieces that stand in lines are in order in the lines joined. -/
theorem InLines.join (h : InLines groups lines) (separator : Text) :
    InOrder groups.flatten (join separator lines) := by
  induction h with
  | nil => exact .nil
  | @cons first line groups lines hfirst hrest ih =>
    rw [List.flatten_cons]
    cases lines with
    | nil =>
      cases hrest
      rwa [List.flatten_nil, List.append_nil]
    | cons next lines =>
      rw [Text.join, List.append_assoc]
      exact hfirst.append (ih.prepend separator)

/-- Lines in which no piece stands may be left out. -/
theorem InLines.filter (h : InLines groups lines) {keep : Text → Bool}
    (hkeep : ∀ group ∈ groups, ∀ line, InOrder group line → keep line = false → group = []) :
    ∃ kept, InLines kept (lines.filter keep) ∧ kept.flatten = groups.flatten := by
  induction h with
  | nil => exact ⟨[], .nil, rfl⟩
  | @cons first line groups lines hfirst hrest ih =>
    obtain ⟨hhead, htail⟩ := List.forall_mem_cons.mp hkeep
    obtain ⟨kept, hkept, hflatten⟩ := ih htail
    cases hline : keep line with
    | true =>
      rw [List.filter_cons_of_pos hline]
      exact ⟨first :: kept, .cons hfirst hkept, congrArg (first ++ ·) hflatten⟩
    | false =>
      rw [List.filter_cons_of_neg (by simp [hline]), hhead line hfirst hline]
      exact ⟨kept, hkept, hflatten⟩

/-- Tight pieces stay in their lines when the lines are stripped. -/
theorem InLines.strip (h : InLines groups lines)
    (htight : ∀ group ∈ groups, ∀ piece ∈ group, IsTight piece) :
    InLines groups (lines.map Text.strip) := by
  induction h with
  | nil => exact .nil
  | cons hfirst _ ih =>
    obtain ⟨hhead, htail⟩ := List.forall_mem_cons.mp htight
    exact .cons (hfirst.strip hhead) (ih htail)

/-- Tight pieces that are in order in a text stand in the lines of it that are not blank. -/
theorem InOrder.inLines (h : InOrder pieces text) (htight : ∀ piece ∈ pieces, IsTight piece) :
    ∃ groups, InLines groups ((Text.splitOn '\n' text).filter fun line => Text.strip line ≠ []) ∧
      groups.flatten = pieces := by
  obtain ⟨groups, hgroups, rfl⟩ := h.splitOn fun piece hpiece => (htight piece hpiece).no_feed
  refine hgroups.filter fun group hgroup line hline hblank => ?_
  have hpieces : ∀ piece ∈ group, IsTight piece := fun piece hpiece =>
    htight piece (List.mem_flatten.mpr ⟨group, hgroup, hpiece⟩)
  rw [decide_eq_false_iff_not, Decidable.not_not] at hblank
  exact hline.eq_nil_of_blank hpieces hblank

end Lines

end SourceLoom.Text
