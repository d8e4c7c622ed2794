import Mathlib.Data.List.Forall2
import Mathlib.Data.List.Infix
import SourceLoom.Outline
import SourceLoom.Proofs.Path.Normal
import SourceLoom.Proofs.Text.Lines

/-!
# Reading outlines

A drawing can be read again. Where an entry of a list is expected, its line begins with the
indentation of the list and one of two pieces, and no line of what is below an entry begins so,
whatever the names are: the piece below an entry with others after it is neither of the two. So a
text is the drawing of at most one outline whose names have no line feed, and a drawing has one
line for every entry.
-/

namespace SourceLoom.Outline

/-- The names in an outline, in the order in which they are drawn. -/
def names : Outline → List Text
  | nil => []
  | entry name below next => name :: (names below ++ names next)

/-- Every name of an outline fits on a line. -/
def FitsLines (outline : Outline) : Prop := ∀ name ∈ outline.names, '\n' ∉ name

instance (outline : Outline) : Decidable outline.FitsLines :=
  inferInstanceAs (Decidable (∀ name ∈ outline.names, '\n' ∉ name))

/-- Reads the entries whose lines have an indentation, with what is below them, and tells which
lines are left. The first argument bounds the number of lines that are read. -/
def readFrom (style : Style) : Nat → (indentation : Text) → List Text →
    Option (Outline × List Text)
  | 0, _, _ => none
  | _ + 1, _, [] => some (nil, [])
  | bound + 1, indentation, line :: lines =>
    match Text.dropLeading? (indentation ++ style.branch) line,
      Text.dropLeading? (indentation ++ style.last) line with
    | some name, _ => do
      let (below, lines) ← readFrom style bound (indentation ++ style.vertical) lines
      let (next, lines) ← readFrom style bound indentation lines
      if next = nil then none else return (entry name below next, lines)
    | none, some name => do
      let (below, lines) ← readFrom style bound (indentation ++ style.space) lines
      return (entry name below nil, lines)
    | none, none => some (nil, line :: lines)

/-- The outline of a drawing: every line ends with a line feed, and no line may be left. -/
def read (style : Style) (text : Text) : Option Outline :=
  let pieces := Text.splitOn '\n' text
  if pieces.getLast? = some [] then
    match readFrom style pieces.length [] pieces.dropLast with
    | some (outline, []) => some outline
    | _ => none
  else none

/-- The pieces of a style tell where an entry is. -/
structure Style.IsTelling (style : Style) : Prop where
  /-- An entry with others after it does not look like the last one. -/
  branch_last : style.branch.length = style.last.length ∧ style.branch ≠ style.last
  /-- What is below an entry does not look like the entry after it. -/
  vertical_branch : style.vertical.length = style.branch.length ∧ style.vertical ≠ style.branch
  /-- Nor does it look like the last entry. -/
  vertical_last : style.vertical.length = style.last.length ∧ style.vertical ≠ style.last
  /-- All pieces fit on a line. -/
  fitsLine : ∀ piece ∈ [style.branch, style.last, style.vertical, style.space], '\n' ∉ piece

/-- Both styles are telling, and with them every name of a style. -/
theorem Style.ofName_isTelling (name : Text) : (Style.ofName name).IsTelling := by
  have hlines : Style.lines.IsTelling :=
    ⟨by decide, by decide, by decide, by decide⟩
  have hascii : Style.ascii.IsTelling :=
    ⟨by decide, by decide, by decide, by decide⟩
  unfold Style.ofName
  cases hstyle : Style.named? name with
  | none => exact hlines
  | some style =>
    obtain ⟨before, after, hall, -⟩ := List.lookup_eq_some_iff.mp hstyle
    have hmem : (name, style) ∈ Style.all := hall ▸ List.mem_append_right _ List.mem_cons_self
    simp only [Style.all, List.mem_cons, Prod.mk.injEq, List.not_mem_nil, or_false] at hmem
    rcases hmem with ⟨-, rfl⟩ | ⟨-, rfl⟩
    · exact hlines
    · exact hascii

/-- Two pieces of one length begin the same text only if they are one piece. -/
theorem not_isPrefix_append {piece other : Text} (h : piece.length = other.length ∧ piece ≠ other)
    (indentation rest : Text) : ¬ indentation ++ piece <+: indentation ++ other ++ rest := by
  rw [List.append_assoc, List.prefix_append_right_inj]
  intro hprefix
  have htake := List.prefix_iff_eq_take.mp hprefix
  rw [h.1, List.take_left] at htake
  exact h.2 htake

/-- No entry of a list begins with lines that do not have its indentation. -/
theorem readFrom_of_not_isPrefix {style : Style} {bound : Nat} {indentation : Text}
    {lines : List Text} (h : ∀ line, lines.head? = some line → ¬ indentation <+: line) :
    readFrom style (bound + 1) indentation lines = some (nil, lines) := by
  cases lines with
  | nil => rfl
  | cons line lines =>
    have hnone (piece : Text) : Text.dropLeading? (indentation ++ piece) line = none :=
      Text.dropLeading?_eq_none_iff.mpr fun hprefix =>
        h line rfl ((List.prefix_append _ _).trans hprefix)
    rw [readFrom, hnone, hnone]

variable {style : Style} {outline below next : Outline} {indentation name : Text}

/-- The lines of an entry with others after it. -/
theorem drawnLines_branch (h : next ≠ nil) :
    drawnLines style indentation (entry name below next) =
      (indentation ++ style.branch ++ name) ::
        (drawnLines style (indentation ++ style.vertical) below ++
          drawnLines style indentation next) := by
  rw [drawnLines, if_neg h, if_neg h]
  rfl

/-- The lines of the last entry of a list. -/
theorem drawnLines_last : drawnLines style indentation (entry name below nil) =
    (indentation ++ style.last ++ name) ::
      drawnLines style (indentation ++ style.space) below := by
  rw [drawnLines, if_pos rfl, if_pos rfl, drawnLines, List.append_nil]

/-- What is below an entry is read up to the entry after it. -/
theorem not_isPrefix_drawnLines (hstyle : style.IsTelling) (hnext : next ≠ nil) (rest : List Text) :
    ∀ line, (drawnLines style indentation next ++ rest).head? = some line →
      ¬ indentation ++ style.vertical <+: line := by
  intro line hline
  cases next with
  | nil => exact absurd rfl hnext
  | entry name below next =>
    by_cases hlast : next = nil
    · subst hlast
      rw [drawnLines_last, List.cons_append, List.head?_cons, Option.some_inj] at hline
      rw [← hline]
      exact not_isPrefix_append hstyle.vertical_last indentation name
    · rw [drawnLines_branch hlast, List.cons_append, List.head?_cons, Option.some_inj] at hline
      rw [← hline]
      exact not_isPrefix_append hstyle.vertical_branch indentation name

/-- The lines of a drawing are read as what was drawn, up to a line that does not have its
indentation. -/
theorem readFrom_drawnLines (hstyle : style.IsTelling) {bound : Nat} {rest : List Text}
    (hbound : (drawnLines style indentation outline).length < bound)
    (hrest : ∀ line, rest.head? = some line → ¬ indentation <+: line) :
    readFrom style bound indentation (drawnLines style indentation outline ++ rest) =
      some (outline, rest) := by
  induction outline generalizing bound indentation rest with
  | nil =>
    obtain ⟨bound, rfl⟩ := Nat.exists_eq_succ_of_ne_zero (Nat.ne_of_gt hbound)
    exact readFrom_of_not_isPrefix hrest
  | entry name below next ihbelow ihnext =>
    obtain ⟨bound, rfl⟩ := Nat.exists_eq_succ_of_ne_zero (by omega : bound ≠ 0)
    by_cases hnext : next = nil
    · subst hnext
      have hbelow : ∀ line, rest.head? = some line → ¬ indentation ++ style.space <+: line :=
        fun line hline hprefix => hrest line hline ((List.prefix_append _ _).trans hprefix)
      have hbranch : Text.dropLeading? (indentation ++ style.branch)
          (indentation ++ style.last ++ name) = none :=
        Text.dropLeading?_eq_none_iff.mpr
          (not_isPrefix_append hstyle.branch_last indentation name)
      have hlast : Text.dropLeading? (indentation ++ style.last)
          (indentation ++ style.last ++ name) = some name :=
        Text.dropLeading?_eq_some_iff.mpr rfl
      rw [drawnLines_last, List.length_cons] at hbound
      have hread := ihbelow (by omega : _ < bound) hbelow
      rw [drawnLines_last, List.cons_append, readFrom, hbranch, hlast]
      dsimp only
      rw [hread]
      rfl
    · have hbranch : Text.dropLeading? (indentation ++ style.branch)
          (indentation ++ style.branch ++ name) = some name :=
        Text.dropLeading?_eq_some_iff.mpr rfl
      rw [drawnLines_branch hnext, List.length_cons, List.length_append] at hbound
      have hbelow : ∀ line, (drawnLines style indentation next ++ rest).head? = some line →
          ¬ indentation ++ style.vertical <+: line := not_isPrefix_drawnLines hstyle hnext rest
      have hread := ihbelow (by omega : _ < bound) hbelow
      have hreadNext := ihnext (by omega : _ < bound) hrest
      rw [← List.append_assoc] at hread
      rw [drawnLines_branch hnext, List.cons_append, readFrom, hbranch]
      dsimp only
      rw [hread, Option.bind_eq_bind, Option.bind_some]
      dsimp only
      rw [hreadNext, Option.bind_some]
      exact if_neg hnext

/-- What is read is what the lines draw. -/
theorem eq_of_readFrom {bound : Nat} {lines rest : List Text}
    (h : readFrom style bound indentation lines = some (outline, rest)) :
    lines = drawnLines style indentation outline ++ rest := by
  induction bound generalizing indentation lines outline rest with
  | zero => cases h
  | succ bound ih =>
    cases lines with
    | nil =>
      cases h
      rfl
    | cons line lines =>
      rw [readFrom] at h
      split at h
      · rename_i name _ hbranch
        obtain ⟨⟨below, more⟩, hbelow, h⟩ := Option.bind_eq_some_iff.mp h
        obtain ⟨⟨next, others⟩, hnext, h⟩ := Option.bind_eq_some_iff.mp h
        dsimp only at hnext h
        split at h
        · cases h
        · rename_i hne
          obtain ⟨rfl, rfl⟩ := Prod.mk.inj (Option.some_inj.mp h)
          rw [drawnLines_branch hne, Text.dropLeading?_eq_some_iff.mp hbranch, ih hbelow, ih hnext]
          simp
      · rename_i name _ hlast
        obtain ⟨⟨below, more⟩, hbelow, h⟩ := Option.bind_eq_some_iff.mp h
        obtain ⟨rfl, rfl⟩ := Prod.mk.inj (Option.some_inj.mp h)
        rw [drawnLines_last, Text.dropLeading?_eq_some_iff.mp hlast, ih hbelow]
        rfl
      · obtain ⟨rfl, rfl⟩ := Prod.mk.inj (Option.some_inj.mp h)
        rfl

/-- Every name ends a line of its own. -/
theorem names_drawnLines (style : Style) (indentation : Text) (outline : Outline) :
    List.Forall₂ (· <:+ ·) outline.names (drawnLines style indentation outline) := by
  induction outline generalizing indentation with
  | nil => exact List.Forall₂.nil
  | entry name below next ihbelow ihnext =>
    exact .cons (List.suffix_append _ _) (List.rel_append (ihbelow _) (ihnext _))

/-- A drawing has as many lines as the outline has entries. -/
theorem length_drawnLines (style : Style) (indentation : Text) (outline : Outline) :
    (drawnLines style indentation outline).length = outline.names.length :=
  (names_drawnLines style indentation outline).length_eq.symm

/-- Lines without line feeds have names without line feeds. -/
theorem fitsLines_of_drawnLines
    (h : ∀ line ∈ drawnLines style indentation outline, '\n' ∉ line) : outline.FitsLines := by
  intro name hname hfeed
  obtain ⟨hlength, hsuffix⟩ :=
    List.forall₂_iff_get.mp (names_drawnLines style indentation outline)
  obtain ⟨i, hi, rfl⟩ := List.mem_iff_getElem.mp hname
  have hline := hsuffix i hi (hlength ▸ hi)
  exact h _ (List.get_mem _ _) (hline.mem hfeed)

/-- Names without line feeds are drawn in lines without line feeds. -/
theorem not_mem_drawnLines (hstyle : style.IsTelling) (hindentation : '\n' ∉ indentation)
    (h : outline.FitsLines) : ∀ line ∈ drawnLines style indentation outline, '\n' ∉ line := by
  induction outline generalizing indentation with
  | nil => exact nofun
  | entry name below next ihbelow ihnext =>
    obtain ⟨hname, hnames⟩ := List.forall_mem_cons.mp h
    obtain ⟨hbelow, hnext⟩ := List.forall_mem_append.mp hnames
    have hpiece := hstyle.fitsLine
    simp only [List.forall_mem_cons] at hpiece
    obtain ⟨hbranch, hlast, hvertical, hspace, -⟩ := hpiece
    have hfirst :
        '\n' ∉ indentation ++ (if next = nil then style.last else style.branch) ++ name := by
      split <;> simp [*]
    have hinner : '\n' ∉ indentation ++ (if next = nil then style.space else style.vertical) := by
      split <;> simp [*]
    rw [drawnLines]
    exact List.forall_mem_append.mpr
      ⟨List.forall_mem_cons.mpr ⟨hfirst, ihbelow hinner hbelow⟩, ihnext hindentation hnext⟩

/-- The lines of a drawing are the pieces between its line feeds. -/
theorem splitOn_draw (hstyle : style.IsTelling) (h : outline.FitsLines) :
    Text.splitOn '\n' (draw style outline) = drawnLines style [] outline ++ [[]] := by
  have hpieces : ∀ piece ∈ drawnLines style [] outline ++ [[]], '\n' ∉ piece :=
    List.forall_mem_append.mpr ⟨not_mem_drawnLines hstyle List.not_mem_nil h, by simp⟩
  have hdraw : draw style outline = Text.join ['\n'] (drawnLines style [] outline ++ [[]]) := by
    rw [Text.join_append _ (List.cons_ne_nil _ _), draw, Text.join, List.append_nil]
  rw [hdraw, Path.splitOn_eq, Path.join_eq,
    List.splitOn_intercalate '\n' hpieces (List.append_ne_nil_of_right_ne_nil _ (by simp))]

/-- A text is read as an outline exactly if it is the drawing of this outline, and the names of the
outline fit on lines. -/
theorem read_eq_some_iff (hstyle : style.IsTelling) {text : Text} :
    read style text = some outline ↔ text = draw style outline ∧ outline.FitsLines := by
  constructor
  · intro h
    unfold read at h
    dsimp only at h
    split at h
    · rename_i hlast
      split at h
      · rename_i other hread
        rw [Option.some_inj] at h
        subst h
        have hlines := eq_of_readFrom hread
        have hpieces : Text.splitOn '\n' text = drawnLines style [] other ++ [[]] := by
          rw [← List.dropLast_append_getLast? [] hlast, hlines, List.append_nil]
        have hfits : ∀ line ∈ drawnLines style [] other, '\n' ∉ line := fun line hline =>
          Path.not_mem_of_mem_splitOn (hpieces ▸ List.mem_append_left _ hline)
        refine ⟨?_, fitsLines_of_drawnLines hfits⟩
        rw [← Text.join_splitOn '\n' text, hpieces, Text.join_append _ (List.cons_ne_nil _ _),
          draw, Text.join, List.append_nil]
      · cases h
    · cases h
  · rintro ⟨rfl, h⟩
    have hread : readFrom style ((drawnLines style [] outline).length + 1) []
        (drawnLines style [] outline ++ []) = some (outline, []) :=
      readFrom_drawnLines hstyle (Nat.lt_succ_self _) (by simp)
    rw [List.append_nil] at hread
    unfold read
    dsimp only
    rw [splitOn_draw hstyle h, List.getLast?_concat, if_pos rfl, List.dropLast_concat,
      List.length_append, List.length_singleton, hread]

/-- In both styles a drawing can be read again, whatever the names are that fit on lines: reading
gives back the outline with the order of its entries. So no other outline has the same drawing,
and the drawing has one line for every entry, which ends with the entry's name. -/
theorem draw_readable (styleName : Text) {outline : Outline} (h : outline.FitsLines) :
    read (.ofName styleName) (draw (.ofName styleName) outline) = some outline ∧
      (∀ other : Outline, other.FitsLines →
        draw (.ofName styleName) other = draw (.ofName styleName) outline → other = outline) ∧
      Text.splitOn '\n' (draw (.ofName styleName) outline) =
        drawnLines (.ofName styleName) [] outline ++ [[]] ∧
      List.Forall₂ (· <:+ ·) outline.names (drawnLines (.ofName styleName) [] outline) ∧
      (drawnLines (.ofName styleName) [] outline).length = outline.names.length := by
  have hstyle := Style.ofName_isTelling styleName
  have hread := (read_eq_some_iff hstyle).mpr ⟨rfl, h⟩
  refine ⟨hread, fun other hother hdraw => ?_, splitOn_draw hstyle h, names_drawnLines _ _ _,
    length_drawnLines _ _ _⟩
  have hreadOther := (read_eq_some_iff hstyle).mpr ⟨rfl, hother⟩
  rw [hdraw, hread] at hreadOther
  exact (Option.some_inj.mp hreadOther).symm

/-- An outline with an empty name, and with names that look like the pieces of a drawing. -/
def disguised : Outline :=
  entry [] (entry "├── a".toList nil (entry "    ".toList nil nil))
    (entry "│   └── b".toList (entry "└── ".toList nil nil) nil)

/-- The drawing of such an outline can be read again. -/
theorem draw_readable_disguised : disguised.FitsLines ∧
    read (.ofName "tree".toList) (draw (.ofName "tree".toList) disguised) = some disguised ∧
      (drawnLines (.ofName "tree".toList) [] disguised).length = 5 := by
  have h : disguised.FitsLines := by decide
  obtain ⟨hread, -, -, -, hlength⟩ := draw_readable "tree".toList h
  exact ⟨h, hread, hlength⟩

end SourceLoom.Outline
