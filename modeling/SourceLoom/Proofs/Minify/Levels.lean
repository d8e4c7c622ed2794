import SourceLoom.Proofs.Minify.Collapsing

/-!
# What the levels remove

Each level works on the text that is left without comments and removes at least as much as the
level before it. Blank lines go first, then the blanks around the other lines, and last, where a
file may be collapsed, the blanks that marks make needless. Nothing solid goes but the semicolons
right before closing braces, and those only in a collapsed text.
-/

namespace SourceLoom

namespace Text

/-- Joining fewer pieces gives a part of all of them joined. -/
theorem join_filter_sublist (separator : Text) (keep : Text → Bool) (pieces : List Text) :
    (join separator (pieces.filter keep)).Sublist (join separator pieces) := by
  induction pieces with
  | nil => exact List.Sublist.refl _
  | cons piece pieces ih =>
    cases pieces with
    | nil =>
      rw [List.filter_singleton]
      cases keep piece with
      | true => exact List.Sublist.refl _
      | false => exact List.nil_sublist _
    | cons next pieces =>
      have hrest : (join separator ((next :: pieces).filter keep)).Sublist
          (separator ++ join separator (next :: pieces)) :=
        ih.trans (List.sublist_append_right _ _)
      rw [join, List.append_assoc, List.filter_cons]
      split
      · cases hkept : (next :: pieces).filter keep with
        | nil => exact List.sublist_append_left _ _
        | cons first kept =>
          rw [hkept] at ih
          rw [join, List.append_assoc]
          exact (List.Sublist.refl _).append ((List.Sublist.refl _).append ih)
      · exact hrest.trans (List.sublist_append_right _ _)

/-- Joining parts of pieces gives a part of the pieces joined. -/
theorem join_map_sublist (separator : Text) {shorten : Text → Text}
    (h : ∀ piece, (shorten piece).Sublist piece) (pieces : List Text) :
    (join separator (pieces.map shorten)).Sublist (join separator pieces) := by
  induction pieces with
  | nil => exact List.Sublist.refl _
  | cons piece pieces ih =>
    cases pieces with
    | nil => exact h piece
    | cons next pieces =>
      rw [List.map_cons, List.map_cons, join, join]
      exact ((h piece).append (List.Sublist.refl _)).append ih

end Text

namespace Minify

open Text

/-- Dropping blank lines only removes characters. -/
theorem withoutBlankLines_sublist (text : Text) : (withoutBlankLines text).Sublist text := by
  have hlines := join_filter_sublist ['\n'] (fun line => strip line ≠ []) (splitOn '\n' text)
  rwa [join_splitOn] at hlines

/-- Stripping the lines removes more than dropping the blank ones alone. -/
theorem strippedLines_sublist (text : Text) :
    (strippedLines text).Sublist (withoutBlankLines text) := by
  rw [strippedLines, filter_map_strip]
  exact join_map_sublist ['\n'] (fun line => (strip_isInfix line).sublist) _

/-- Where a file may not be collapsed, the strongest level is the medium one. -/
theorem withoutBlanks_aggressive {ending : Text} (h : ending ∉ collapsibleEndings) (text : Text) :
    withoutBlanks .aggressive ending text = withoutBlanks .medium ending text :=
  if_neg h

/-- The levels leave texts of decreasing length, none longer than the text. -/
theorem length_withoutBlanks_le (ending text : Text) :
    (withoutBlanks .aggressive ending text).length ≤ (withoutBlanks .medium ending text).length ∧
      (withoutBlanks .medium ending text).length ≤ (withoutBlanks .light ending text).length ∧
      (withoutBlanks .light ending text).length ≤ text.length := by
  refine ⟨?_, (strippedLines_sublist text).length_le, (withoutBlankLines_sublist text).length_le⟩
  by_cases h : ending ∈ collapsibleEndings
  · rw [withoutBlanks_collapse h]
    exact length_collapse_le _
  · rw [withoutBlanks_aggressive h]

/-- Minification removes only blanks from a text without comments, and each level removes more than
the one before. Only where a file is collapsed, the semicolons right before closing braces go too.
A file of no known family keeps everything that is solid. Without a text that is freed of comments
there is no minified one: this happens to JSON with a number of too many digits alone. -/
theorem levels_remove_blanks (content : Text) (path : Path) :
    (∀ count, withoutComments (.ofEnding (ending path)) content = .error (.tooManyDigits count) →
      Family.ofEnding (ending path) = .data ∧ Text.digitLimit < count ∧
        Json.HasDigits content count ∧
        ∀ level, minify content path level = .error (.tooManyDigits count)) ∧
    ∀ bare, withoutComments (.ofEnding (ending path)) content = .ok bare →
      ∃ output : Level → Text, (∀ level, minify content path level = .ok (output level)) ∧
        (∀ level, level ≠ .aggressive ∨ ending path ∉ collapsibleEndings →
          solid (output level) = solid bare) ∧
        (ending path ∈ collapsibleEndings →
          solid (output .aggressive) = withoutLastSemicolons (solid bare)) ∧
        ((output .aggressive).length ≤ (output .medium).length ∧
          (output .medium).length ≤ (output .light).length ∧
          (output .light).length ≤ bare.length) ∧
        (Family.ofEnding (ending path) = .other →
          bare = content ∧ ∀ level, solid (output level) = solid content) := by
  constructor
  · intro count hfault
    obtain ⟨hfamily, hcount, hdigits⟩ := digits_of_withoutComments hfault
    exact ⟨hfamily, hcount, hdigits, minify_of_fault hfault⟩
  intro bare hbare
  have hkept : ∀ level, level ≠ .aggressive ∨ ending path ∉ collapsibleEndings →
      solid (withoutBlanks level (ending path) bare) = solid bare := by
    intro level hlevel
    by_cases haggressive : level = .aggressive
    · subst haggressive
      have hending := hlevel.resolve_left fun h => h rfl
      rw [withoutBlanks_aggressive hending]
      exact solid_strippedLines bare
    · exact solid_withoutBlanks haggressive (ending path) bare
  refine ⟨fun level => withoutBlanks level (ending path) bare, minify_of_bare hbare, hkept,
    fun hending => ?_, length_withoutBlanks_le (ending path) bare, fun hother => ?_⟩
  · dsimp only
    rw [withoutBlanks_collapse hending, solid_collapse, solid_strippedLines]
  · have hcontent : bare = content := by
      rw [hother] at hbare
      exact (Except.ok.inj hbare).symm
    have hending : ending path ∉ collapsibleEndings := fun h => (ofEnding_collapsible h).2 hother
    exact ⟨hcontent, fun level => (hkept level (Or.inr hending)).trans (congrArg solid hcontent)⟩

/-- A script loses one semicolon at the strongest level and nothing solid at the medium one; the
same text as a note loses nothing solid. -/
theorem levels_remove_blanks_spaced :
    (ending (.ofText "x.TS".toList) ∈ collapsibleEndings ∧
      ∃ medium aggressive,
        minify spacedScript (.ofText "x.TS".toList) .medium = .ok medium ∧
        minify spacedScript (.ofText "x.TS".toList) .aggressive = .ok aggressive ∧
        solid medium = "a=(b),c;;\x7dde;\x7d".toList ∧
        solid aggressive = "a=(b),c;\x7dde\x7d".toList) ∧
    (Family.ofEnding (ending (.ofText "x.md".toList)) = .other ∧
      ∃ output, minify spacedScript (.ofText "x.md".toList) .aggressive = .ok output ∧
        solid output = solid spacedScript) := by
  have hscript : ending (.ofText "x.TS".toList) ∈ collapsibleEndings := by decide
  have hother : Family.ofEnding (ending (.ofText "x.md".toList)) = .other := by decide
  obtain ⟨output, houtput, hkept, hcollapsed, -, -⟩ :=
    (levels_remove_blanks spacedScript (.ofText "x.TS".toList)).2
      (withoutScriptComments spacedScript) rfl
  obtain ⟨note, hnote, -, -, -, hwhole⟩ :=
    (levels_remove_blanks spacedScript (.ofText "x.md".toList)).2 spacedScript rfl
  refine ⟨⟨hscript, _, _, houtput .medium, houtput .aggressive,
    (hkept .medium (Or.inl nofun)).trans ?_, (hcollapsed hscript).trans ?_⟩,
    hother, _, hnote .aggressive, (hwhole hother).2 .aggressive⟩
  · decide
  · decide

end Minify

end SourceLoom
