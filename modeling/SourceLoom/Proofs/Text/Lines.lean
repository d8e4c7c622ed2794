import Mathlib.Data.List.Infix
import Mathlib.Data.List.TakeWhile
import SourceLoom.Text.Blank
import SourceLoom.Text.Word

/-!
# Lines and their ends

Line breaks are blank, and word characters are not. Where a text is cut into lines, what stands
before its first line break goes to the first line, and blanks before a text only put blank lines
before its lines and blanks before its first one. Stripping cuts a text at both ends. A piece that
a text includes stands somewhere in it, on one side of any character that the piece has not.
-/

namespace SourceLoom.Text

variable {c : Char} {text rest : Text}

/-- A line break is blank. -/
theorem isBlank_of_isLineBreak (h : isLineBreak c = true) : isBlank c = true := by
  rw [isLineBreak, CodePointSet.has_iff] at h
  rw [isBlank, CodePointSet.has_iff]
  simp only [lineBreaks, blanks, List.mem_cons, List.not_mem_nil, or_false, exists_eq_or_imp,
    exists_eq_left] at h ⊢
  omega

/-- A word character is not blank. -/
theorem not_isBlank_of_isWord (h : isWord c = true) : isBlank c = false := by
  by_contra hblank
  rw [Bool.not_eq_false, isBlank, CodePointSet.has_iff] at hblank
  simp only [blanks, List.mem_cons, List.not_mem_nil, or_false, exists_eq_or_imp,
    exists_eq_left] at hblank
  have hword : ∀ n ∈ List.range' 0x9 5 ++ List.range' 0x1C 5 ++ [0x85, 0xA0, 0x1680] ++
      List.range' 0x2000 11 ++ [0x2028, 0x2029, 0x202F, 0x205F, 0x3000],
      isWord (Char.ofNat n) = false := by decide +kernel
  have hmem : c.toNat ∈ List.range' 0x9 5 ++ List.range' 0x1C 5 ++ [0x85, 0xA0, 0x1680] ++
      List.range' 0x2000 11 ++ [0x2028, 0x2029, 0x202F, 0x205F, 0x3000] := by
    simp only [List.mem_append, List.mem_range'_1, List.mem_cons, List.not_mem_nil, or_false]
    omega
  have hnot := hword c.toNat hmem
  rw [Char.ofNat_toNat, h] at hnot
  cases hnot

/-- A word character is no line break. -/
theorem not_isLineBreak_of_not_isBlank (h : isBlank c = false) : isLineBreak c = false := by
  by_contra hbreak
  rw [isBlank_of_isLineBreak (by simpa using hbreak)] at h
  cases h

/-- Only the empty text has no lines. -/
theorem lines_ne_nil (h : text ≠ []) : lines text ≠ [] := by
  unfold lines
  split
  · exact absurd rfl h
  · exact List.cons_ne_nil _ _
  · split
    · exact List.cons_ne_nil _ _
    · split <;> exact List.cons_ne_nil _ _

/-- A character that ends no line goes to the first line. -/
theorem lines_cons (hc : isLineBreak c = false) :
    lines (c :: rest) = if rest = [] then [[c]] else (lines rest).modifyHead (c :: ·) := by
  have hcarriage : c ≠ '\r' := by
    rintro rfl
    exact absurd hc (by decide)
  rw [lines.eq_def]
  split
  · rename_i heq
    cases heq
  · rename_i heq
    exact absurd (List.cons.inj heq).1 hcarriage
  · rename_i heq
    obtain ⟨rfl, rfl⟩ := List.cons.inj heq
    rw [if_neg (by simp [hc])]
    by_cases hrest : rest = []
    · subst hrest
      rfl
    · obtain ⟨line, more, hlines⟩ := List.exists_cons_of_ne_nil (lines_ne_nil hrest)
      rw [if_neg hrest, hlines]
      rfl

/-- A character that ends a line leaves an empty line, unless it is a carriage return that a line
feed follows. -/
theorem lines_cons_break (hc : isLineBreak c = true)
    (hrest : ¬(c = '\r' ∧ rest.head? = some '\n')) : lines (c :: rest) = [] :: lines rest := by
  rw [lines.eq_def]
  split
  · rename_i heq
    cases heq
  · rename_i heq
    obtain ⟨rfl, rfl⟩ := List.cons.inj heq
    exact absurd ⟨rfl, rfl⟩ hrest
  · rename_i heq
    obtain ⟨rfl, rfl⟩ := List.cons.inj heq
    rw [if_pos hc]

/-- No line break is in a line. -/
theorem not_isLineBreak_of_mem_lines {line : Text} (h : line ∈ lines text) :
    ∀ c ∈ line, isLineBreak c = false := by
  fun_induction lines text generalizing line with
  | case1 => cases h
  | case2 rest ih =>
    rcases List.mem_cons.mp h with rfl | h
    · exact nofun
    · exact ih h
  | case3 c rest _ hc ih =>
    rcases List.mem_cons.mp h with rfl | h
    · exact nofun
    · exact ih h
  | case4 c rest _ hc hlines ih =>
    rw [List.mem_singleton.mp h]
    exact List.forall_mem_singleton.mpr (by simpa using hc)
  | case5 c rest _ hc first more hlines ih =>
    rw [hlines] at ih
    rcases List.mem_cons.mp h with rfl | h
    · exact List.forall_mem_cons.mpr ⟨by simpa using hc, ih List.mem_cons_self⟩
    · exact ih (List.mem_cons_of_mem _ h)

/-- What stands before the first line break goes to the first line. -/
theorem lines_append (htext : ∀ c ∈ text, isLineBreak c = false) (hrest : rest ≠ []) :
    lines (text ++ rest) = (lines rest).modifyHead (text ++ ·) := by
  induction text with
  | nil =>
    rw [List.nil_append]
    cases lines rest <;> rfl
  | cons c text ih =>
    obtain ⟨hc, htext⟩ := List.forall_mem_cons.mp htext
    have hne : text ++ rest ≠ [] := List.append_ne_nil_of_right_ne_nil _ hrest
    rw [List.cons_append, lines_cons hc, if_neg hne, ih htext, List.modifyHead_modifyHead]
    rfl

/-- A text without line breaks is one line. -/
theorem lines_of_no_break (hne : text ≠ []) (htext : ∀ c ∈ text, isLineBreak c = false) :
    lines text = [text] := by
  induction text with
  | nil => exact absurd rfl hne
  | cons c text ih =>
    obtain ⟨hc, htext⟩ := List.forall_mem_cons.mp htext
    rw [lines_cons hc]
    split
    · rename_i hnil
      rw [hnil]
    · rename_i hnil
      rw [ih hnil htext]
      rfl

/-- A line break among blanks leaves an empty line and takes at most some of the blanks after it: a
carriage return may take a line feed with it. -/
theorem exists_lines_break {d : Char} {gap : Text} (hd : isLineBreak d = true)
    (hgap : ∀ e ∈ gap, isBlank e = true) (hc : isBlank c = false) :
    ∃ more, (∀ e ∈ more, isBlank e = true) ∧ more.length ≤ gap.length ∧
      lines (d :: gap ++ c :: rest) = [] :: lines (more ++ c :: rest) := by
  have hstart : c ≠ '\n' := by
    rintro rfl
    exact absurd hc (by decide)
  by_cases hfeed : d = '\r' ∧ (gap ++ c :: rest).head? = some '\n'
  · obtain ⟨rfl, hfeed⟩ := hfeed
    cases gap with
    | nil =>
      rw [List.nil_append, List.head?_cons, Option.some_inj] at hfeed
      exact absurd hfeed hstart
    | cons e gap =>
      rw [List.cons_append, List.head?_cons, Option.some_inj] at hfeed
      subst hfeed
      exact ⟨gap, (List.forall_mem_cons.mp hgap).2, Nat.le_succ _, rfl⟩
  · exact ⟨gap, hgap, Nat.le_refl _, lines_cons_break hd hfeed⟩

/-- Before the lines of a text that does not begin with a blank, blanks put some blank lines, and
what is left of them before the first line. -/
theorem lines_blank_append {gap : Text} (hgap : ∀ c ∈ gap, isBlank c = true)
    (hc : isBlank c = false) :
    ∃ silent last, (∀ line ∈ silent, ∀ d ∈ line, isBlank d = true) ∧
      (∀ d ∈ last, isBlank d = true) ∧
      lines (gap ++ c :: rest) = silent ++ (lines (c :: rest)).modifyHead (last ++ ·) := by
  have hself : ∀ ls : List Text, ls.modifyHead ([] ++ ·) = ls := by
    intro ls
    cases ls <;> rfl
  induction hlength : gap.length using Nat.strongRecOn generalizing gap with
  | _ n ih =>
    cases gap with
    | nil => exact ⟨[], [], nofun, nofun, (hself _).symm⟩
    | cons d gap =>
      obtain ⟨hd, htail⟩ := List.forall_mem_cons.mp hgap
      have hshorter : gap.length < n := by
        rw [← hlength]
        exact Nat.lt_succ_self _
      cases hbreak : isLineBreak d with
      | false =>
        obtain ⟨silent, last, hsilent, hlast, hlines⟩ := ih gap.length hshorter htail rfl
        have hne : gap ++ c :: rest ≠ [] := by simp
        rw [List.cons_append, lines_cons hbreak, if_neg hne, hlines]
        cases silent with
        | nil =>
          refine ⟨[], d :: last, nofun, List.forall_mem_cons.mpr ⟨hd, hlast⟩, ?_⟩
          rw [List.nil_append, List.modifyHead_modifyHead]
          rfl
        | cons line silent =>
          obtain ⟨hline, hsilent⟩ := List.forall_mem_cons.mp hsilent
          have hlonger : ∀ e ∈ d :: line, isBlank e = true :=
            List.forall_mem_cons.mpr ⟨hd, hline⟩
          exact ⟨(d :: line) :: silent, last, List.forall_mem_cons.mpr ⟨hlonger, hsilent⟩, hlast, rfl⟩
      | true =>
        obtain ⟨more, hmore, hle, hlines⟩ := exists_lines_break hbreak htail hc
        obtain ⟨silent, last, hsilent, hlast, hrest⟩ :=
          ih more.length (Nat.lt_of_le_of_lt hle hshorter) hmore rfl
        refine ⟨[] :: silent, last, List.forall_mem_cons.mpr ⟨nofun, hsilent⟩, hlast, ?_⟩
        rw [hlines, hrest]
        rfl

/-- Stripping takes the blanks before a text. -/
theorem strip_append {gap : Text} (hgap : ∀ d ∈ gap, isBlank d = true) :
    strip (gap ++ rest) = strip rest := by
  have hleft : stripLeft (gap ++ rest) = stripLeft rest := by
    unfold stripLeft
    rw [List.dropWhile_append_of_pos hgap]
  rw [strip, strip, hleft]

/-- A text that begins with a character that is not blank still does when it is stripped. -/
theorem exists_strip_cons (hc : isBlank c = false) (rest : Text) :
    ∃ kept, strip (c :: rest) = c :: kept := by
  have hleft : stripLeft (c :: rest) = c :: rest :=
    List.dropWhile_cons_of_neg (by simp [hc])
  rw [strip, hleft, stripRight, List.reverse_cons, List.dropWhile_append]
  split
  · rw [List.dropWhile_cons_of_neg (by simp [hc])]
    exact ⟨[], rfl⟩
  · rw [List.reverse_append]
    exact ⟨_, rfl⟩

/-- A text that neither begins nor ends with a blank is not changed by stripping. -/
theorem strip_eq_self {last : Char} {kept : Text} (hc : isBlank c = false)
    (hlast : isBlank last = false) (htext : c :: rest = kept ++ [last]) :
    strip (c :: rest) = c :: rest := by
  have hleft : stripLeft (c :: rest) = c :: rest :=
    List.dropWhile_cons_of_neg (by simp [hc])
  rw [strip, hleft, stripRight, htext, List.reverse_append, List.reverse_singleton,
    List.singleton_append, List.dropWhile_cons_of_neg (by simp [hlast]), List.reverse_cons,
    List.reverse_reverse]

/-- Stripping takes only blanks. -/
theorem exists_strip (text : Text) :
    ∃ before after, (∀ d ∈ before, isBlank d = true) ∧ (∀ d ∈ after, isBlank d = true) ∧
      text = before ++ strip text ++ after := by
  refine ⟨text.takeWhile isBlank, ((stripLeft text).reverse.takeWhile isBlank).reverse, ?_, ?_, ?_⟩
  · exact fun d => List.mem_takeWhile_imp
  · exact fun d hd => List.mem_takeWhile_imp (List.mem_reverse.mp hd)
  · have hright : stripLeft text =
        strip text ++ ((stripLeft text).reverse.takeWhile isBlank).reverse := by
      rw [strip, stripRight, ← List.reverse_append, List.takeWhile_append_dropWhile,
        List.reverse_reverse]
    rw [List.append_assoc, ← hright]
    exact List.takeWhile_append_dropWhile.symm

/-- What is left of a stripped text stands in it. -/
theorem strip_isInfix (text : Text) : strip text <:+: text := by
  obtain ⟨before, after, -, -, htext⟩ := exists_strip text
  exact ⟨before, after, htext.symm⟩

/-- Stripping the right end leaves a beginning of the text. -/
theorem stripRight_isPrefix (text : Text) : stripRight text <+: text := by
  have hsuffix : text.reverse.dropWhile isBlank <:+ text.reverse := List.dropWhile_suffix _
  have hprefix := List.reverse_prefix.mpr hsuffix
  rwa [List.reverse_reverse] at hprefix

/-- A stripped text neither begins nor ends with a blank. -/
theorem strip_ends (text : Text) :
    (∀ c ∈ (strip text).head?, isBlank c = false) ∧
      ∀ c ∈ (strip text).getLast?, isBlank c = false := by
  constructor
  · intro c hc
    have hfirst := List.head?_dropWhile_not isBlank text
    obtain ⟨rest, hrest⟩ := stripRight_isPrefix (stripLeft text)
    have hstart : (text.dropWhile isBlank).head? = some c := by
      change (stripLeft text).head? = some c
      rw [← hrest, List.head?_append, ← strip, Option.mem_def.mp hc]
      rfl
    rwa [hstart] at hfirst
  · intro c hc
    have hlast := List.head?_dropWhile_not isBlank (stripLeft text).reverse
    rw [strip, stripRight, List.getLast?_reverse, Option.mem_def] at hc
    rwa [hc] at hlast

/-- A text includes the pieces that stand in it. -/
theorem includes_iff {piece : Text} : includes piece text = true ↔ piece <:+: text := by
  induction text with
  | nil => rw [includes, List.isEmpty_iff, List.infix_nil]
  | cons c text ih =>
    rw [includes, Bool.or_eq_true, ih, List.isPrefixOf_iff_prefix, List.infix_cons_iff]

/-- A piece without a character stands before it or after it. -/
theorem isInfix_append_cons {piece before after : Text} (hc : c ∉ piece)
    (h : piece <:+: before ++ c :: after) : piece <:+: before ∨ piece <:+: after := by
  obtain ⟨first, last, hwhole⟩ := h
  rcases List.append_eq_append_iff.mp hwhole with ⟨more, rfl, -⟩ | ⟨more, hpiece, hrest⟩
  · exact Or.inl ⟨first, more, rfl⟩
  · cases more with
    | nil => exact Or.inl ⟨first, [], by rw [List.append_nil, hpiece, List.append_nil]⟩
    | cons d more =>
      obtain ⟨rfl, rfl⟩ := List.cons.inj hrest
      rcases List.append_eq_append_iff.mp hpiece with ⟨start, -, rfl⟩ | ⟨start, -, hafter⟩
      · exact absurd (List.mem_append_right start List.mem_cons_self) hc
      · cases start with
        | nil =>
          rw [List.nil_append] at hafter
          exact absurd (hafter ▸ List.mem_cons_self) hc
        | cons e start =>
          obtain ⟨-, rfl⟩ := List.cons.inj hafter
          exact Or.inr ⟨start, last, rfl⟩

/-- A text in front that has no separator becomes part of the first piece. -/
theorem splitOn_append_of_not_mem {separator : Char} {front : Text}
    (h : separator ∉ front) (text : Text) :
    splitOn separator (front ++ text) = (splitOn separator text).modifyHead (front ++ ·) := by
  induction front with
  | nil => cases hpieces : splitOn separator text <;> simp [hpieces]
  | cons c front ih =>
    rw [List.mem_cons, not_or] at h
    rw [List.cons_append, splitOn, if_neg (Ne.symm h.1), ih h.2]
    cases splitOn separator text <;> rfl

/-- Every piece stands in the pieces joined. -/
theorem isInfix_join {separator piece : Text} {pieces : List Text} (h : piece ∈ pieces) :
    piece <:+: join separator pieces := by
  induction pieces with
  | nil => cases h
  | cons first pieces ih =>
    cases pieces with
    | nil =>
      rw [List.mem_singleton.mp h]
      exact List.infix_rfl
    | cons next pieces =>
      rw [join]
      rcases List.mem_cons.mp h with rfl | h
      · exact ((List.prefix_append _ _).trans (List.prefix_append _ _)).isInfix
      · exact (ih h).trans (List.suffix_append _ _).isInfix

/-- What stands before the first piece stands before the pieces joined. -/
theorem join_append_cons (separator before piece : Text) (pieces : List Text) :
    join separator ((before ++ piece) :: pieces) = before ++ join separator (piece :: pieces) := by
  cases pieces with
  | nil => rfl
  | cons next pieces => simp only [join, List.append_assoc]

/-- Pieces joined are pieces with a separator after each, before the others joined. -/
theorem join_append {separator : Text} (pieces : List Text) {others : List Text}
    (h : others ≠ []) : join separator (pieces ++ others) =
      pieces.flatMap (· ++ separator) ++ join separator others := by
  induction pieces with
  | nil => rfl
  | cons piece pieces ih =>
    obtain ⟨next, rest, hrest⟩ :=
      List.exists_cons_of_ne_nil (List.append_ne_nil_of_right_ne_nil pieces h)
    rw [List.cons_append, List.flatMap_cons, List.append_assoc, ← ih, hrest]
    rfl

/-- Pieces with a separator after each are the pieces joined, before a last separator. -/
theorem flatMap_eq_join {separator : Text} {pieces : List Text} (h : pieces ≠ []) :
    pieces.flatMap (· ++ separator) = join separator pieces ++ separator := by
  induction pieces with
  | nil => exact absurd rfl h
  | cons piece pieces ih =>
    cases pieces with
    | nil => exact List.append_nil _
    | cons next pieces =>
      rw [List.flatMap_cons, ih (List.cons_ne_nil next pieces), join]
      simp only [List.append_assoc]

/-- Pieces joined with others begin with the pieces joined. -/
theorem join_isPrefix (separator : Text) (pieces others : List Text) :
    join separator pieces <+: join separator (pieces ++ others) := by
  by_cases hothers : others = []
  · rw [hothers, List.append_nil]
  · rw [join_append pieces hothers]
    by_cases hpieces : pieces = []
    · rw [hpieces]
      exact List.nil_prefix
    · rw [flatMap_eq_join hpieces, List.append_assoc]
      exact List.prefix_append _ _

end SourceLoom.Text
