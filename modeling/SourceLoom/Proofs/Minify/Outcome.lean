import SourceLoom.Minify
import SourceLoom.Proofs.Json.Limit

/-!
# Which files are minified

Minification fails for nothing but JSON with a whole number of too many digits, at every level
alike. Everything else is first freed of its comments, and then a level removes blanks from what is
left.
-/

namespace SourceLoom.Minify

variable {content bare : Text} {path : Path} {fault : Fault}

/-- JSON is not written anew just if reading it ends at a whole number of too many digits. -/
theorem rewritten_eq_error_iff {count : Nat} : rewritten content = .error (.tooManyDigits count) ↔
    ∃ position, Json.read Text.digitLimit content = .error ⟨.tooManyDigits count, position⟩ := by
  rw [rewritten]
  cases Json.read Text.digitLimit content with
  | ok value => simp
  | error fault =>
    obtain ⟨cause, position⟩ := fault
    cases cause <;> simp

/-- A file of any other family is freed of its comments. -/
theorem exists_withoutComments {family : Family} (h : family ≠ .data) (content : Text) :
    ∃ bare, withoutComments family content = .ok bare := by
  cases family with
  | data => exact absurd rfl h
  | _ => exact ⟨_, rfl⟩

/-- From what is left without comments, a level removes blanks. -/
theorem minify_of_bare (h : withoutComments (.ofEnding (ending path)) content = .ok bare)
    (level : Level) : minify content path level = .ok (withoutBlanks level (ending path) bare) := by
  rw [minify, h]
  rfl

/-- A minified text is what a level leaves of a text without comments. -/
theorem bare_of_minify {output : Text} {level : Level}
    (h : minify content path level = .ok output) :
    ∃ bare, withoutComments (.ofEnding (ending path)) content = .ok bare ∧
      withoutBlanks level (ending path) bare = output := by
  rw [minify] at h
  cases hbare : withoutComments (.ofEnding (ending path)) content with
  | error fault =>
    rw [hbare] at h
    cases h
  | ok bare =>
    rw [hbare] at h
    exact ⟨bare, rfl, Except.ok.inj h⟩

/-- What is not freed of its comments is not minified, at any level. -/
theorem minify_of_fault (h : withoutComments (.ofEnding (ending path)) content = .error fault)
    (level : Level) : minify content path level = .error fault := by
  rw [minify, h]
  rfl

/-- A file is not freed of its comments just if it is JSON and reading it ends at a whole number of
too many digits. -/
theorem withoutComments_eq_error_iff {count : Nat} :
    withoutComments (.ofEnding (ending path)) content = .error (.tooManyDigits count) ↔
      Family.ofEnding (ending path) = .data ∧
        ∃ position, Json.read Text.digitLimit content =
          .error ⟨.tooManyDigits count, position⟩ := by
  cases Family.ofEnding (ending path) with
  | data => exact rewritten_eq_error_iff.trans (and_iff_right rfl).symm
  | _ => exact iff_of_false nofun fun h => nomatch h.1

/-- A file that is not freed of its comments is JSON in which a number of too many digits stands. -/
theorem digits_of_withoutComments {count : Nat}
    (h : withoutComments (.ofEnding (ending path)) content = .error (.tooManyDigits count)) :
    Family.ofEnding (ending path) = .data ∧ Text.digitLimit < count ∧
      Json.HasDigits content count := by
  obtain ⟨hfamily, position, hread⟩ := withoutComments_eq_error_iff.mp h
  obtain ⟨hexceeds, hdigits⟩ := Json.digits_of_read hread
  exact ⟨hfamily, of_decide_eq_true hexceeds, hdigits⟩

/-- A file that is not minified is such JSON. -/
theorem digits_of_minify {level : Level} {count : Nat}
    (h : minify content path level = .error (.tooManyDigits count)) :
    Family.ofEnding (ending path) = .data ∧ Text.digitLimit < count ∧
      Json.HasDigits content count := by
  rw [minify] at h
  cases hbare : withoutComments (.ofEnding (ending path)) content with
  | ok bare =>
    rw [hbare] at h
    cases h
  | error fault =>
    rw [hbare] at h
    cases h
    exact digits_of_withoutComments hbare

/-- Scripts are always minified. -/
theorem minify_script (hpath : ending path ∈ scriptEndings) (content : Text) (level : Level) :
    minify content path level =
      .ok (withoutBlanks level (ending path) (withoutScriptComments content)) := by
  have hfamily : Family.ofEnding (ending path) = .script := if_pos hpath
  refine minify_of_bare ?_ level
  rw [hfamily]
  rfl

end SourceLoom.Minify
