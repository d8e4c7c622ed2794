import SourceLoom.Minify
import SourceLoom.Proofs.Minify.Comments
import SourceLoom.Proofs.Minify.Space

/-!
# What minification keeps of a script

A script is written as a row of pieces: code without slashes, line comments and block comments. Its
code outlives minification as long as no comment mark is where the pass for the other kind of
comments takes it for its own. Where one is, code may be lost.
-/

namespace SourceLoom.Minify

/-- A piece of a script. -/
inductive Piece where
  /-- Code. -/
  | code (text : Text)
  /-- A comment up to the end of its line, without its mark. -/
  | line (text : Text)
  /-- A comment between two marks, without them. -/
  | block (text : Text)
  deriving DecidableEq, Repr

/-- The text of a piece. -/
def Piece.toText : Piece → Text
  | code text => text
  | line text => lineMark ++ text
  | block text => openingMark ++ (text ++ closingMark)

/-- The code in a piece. -/
def Piece.codeText : Piece → Text
  | code text => text
  | line _ | block _ => []

/-- The text of a script. -/
def scriptText (pieces : List Piece) : Text := pieces.flatMap Piece.toText

/-- The code of a script. -/
def codeText (pieces : List Piece) : Text := pieces.flatMap Piece.codeText

/-- The text of pieces one of which comes first. -/
theorem scriptText_cons (piece : Piece) (pieces : List Piece) :
    scriptText (piece :: pieces) = piece.toText ++ scriptText pieces := List.flatMap_cons

/-- The code of pieces one of which comes first. -/
theorem codeText_cons (piece : Piece) (pieces : List Piece) :
    codeText (piece :: pieces) = piece.codeText ++ codeText pieces := List.flatMap_cons

/-- A row of pieces is a script if each piece ends where the next one begins: there is no slash in
code, a line comment goes to the end of its line, and a block comment to its first closing mark. -/
inductive IsScript : List Piece → Prop
  /-- The empty script. -/
  | nil : IsScript []
  /-- Code has no slash. -/
  | code {text : Text} {pieces : List Piece} :
      '/' ∉ text → IsScript pieces → IsScript (.code text :: pieces)
  /-- The line of a line comment ends after it. -/
  | line {text : Text} {pieces : List Piece} :
      '\n' ∉ text →
      ((scriptText pieces).head? = none ∨ (scriptText pieces).head? = some '\n') →
      IsScript pieces → IsScript (.line text :: pieces)
  /-- No closing mark is in a block comment. -/
  | block {text : Text} {pieces : List Piece} :
      ¬closingMark <:+: text → IsScript pieces → IsScript (.block text :: pieces)

/-- The marks of a script after a character are undisturbed: no line comment seems to begin on the
last line of a block comment, none is made of its closing mark and the comment after it, and no
block comment seems to be opened in a line comment right after a colon. -/
inductive Undisturbed : Char → List Piece → Prop
  /-- The empty script has no marks. -/
  | nil {previous : Char} : Undisturbed previous []
  /-- Code has no marks. -/
  | code {previous : Char} {text : Text} {pieces : List Piece} :
      Undisturbed (text.getLastD previous) pieces →
      Undisturbed previous (.code text :: pieces)
  /-- A line comment after a colon is not removed, and must open no block comment. -/
  | line {previous : Char} {text : Text} {pieces : List Piece} :
      (previous = ':' → IsGuarded text) → Undisturbed '\n' pieces →
      Undisturbed previous (.line text :: pieces)
  /-- Two slashes in a block comment, unless after a colon, must be before its last line, and its
  closing mark must not be followed by a slash. -/
  | block {previous : Char} {text : Text} {pieces : List Piece} :
      IsFenced ('*' :: text) → (scriptText pieces).head? ≠ some '/' →
      Undisturbed '/' pieces → Undisturbed previous (.block text :: pieces)

/-- The first pass on code, and on what follows it. -/
theorem dropLineComments_code {text : Text} (h : '/' ∉ text) (previous : Char) (rest : Text) :
    dropLineComments false previous (text ++ rest) =
      text ++ dropLineComments false (text.getLastD previous) rest := by
  have hend : text.getLast? = some '/' → rest.head? ≠ some '/' := fun hlast =>
    absurd (List.mem_of_getLast? hlast) h
  rw [dropLineComments_append hend, dropLineComments_of_not_mem h, endsInComment_of_not_mem h]

/-- The first pass on a line comment, and on what follows it: the comment is gone, unless it comes
after a colon. -/
theorem dropLineComments_line {text rest : Text} (hline : '\n' ∉ text)
    (hrest : rest.head? = none ∨ rest.head? = some '\n') (previous : Char) :
    dropLineComments false previous (lineMark ++ text ++ rest) =
      (if previous = ':' then dropLineComments false ':' (lineMark ++ text) else []) ++
        dropLineComments false '\n' rest := by
  have hend : (lineMark ++ text).getLast? = some '/' → rest.head? ≠ some '/' := by
    rintro - hslash
    rcases hrest with hnone | hfeed
    · rw [hnone] at hslash
      cases hslash
    · rw [hfeed] at hslash
      exact absurd hslash (by decide)
  rw [dropLineComments_append hend, dropLineComments_lineFeed _ hrest _ '\n']
  split
  · rename_i hcolon
    rw [hcolon]
  · rename_i hcolon
    have hmark : dropLineComments false previous (lineMark ++ text) =
        dropLineComments true '/' ('/' :: text) := if_pos ⟨rfl, rfl, hcolon⟩
    have hwhole : '\n' ∉ '/' :: text := by
      rw [List.mem_cons, not_or]
      exact ⟨by decide, hline⟩
    rw [hmark, dropLineComments_comment hwhole]

/-- The first pass on a block comment, and on what follows it: the marks of the comment stay. -/
theorem dropLineComments_block {text rest : Text} (hfenced : IsFenced ('*' :: text))
    (hrest : rest.head? ≠ some '/') (previous : Char) :
    dropLineComments false previous (openingMark ++ (text ++ closingMark) ++ rest) =
      openingMark ++ (dropLineComments false '*' text ++
        (closingMark ++ dropLineComments false '/' rest)) := by
  have hopen : dropLineComments false previous (openingMark ++ (text ++ closingMark) ++ rest) =
      openingMark ++ dropLineComments false '*' (text ++ (closingMark ++ rest)) := by
    rw [List.append_assoc, List.append_assoc]
    simp [openingMark, dropLineComments]
  have hclose : ∀ c, dropLineComments false c (closingMark ++ rest) =
      closingMark ++ dropLineComments false '/' rest := by
    intro c
    simp [closingMark, dropLineComments, hrest]
  have hstraddle : text.getLast? = some '/' → (closingMark ++ rest).head? ≠ some '/' := by
    intro _
    exact fun h => absurd h (by simp [closingMark])
  have hended : endsInComment false '*' text = false :=
    endsInComment_of_isFenced (fun h => absurd h (by decide)) hfenced
  rw [hopen, dropLineComments_append hstraddle, hended, hclose]

/-- The code of a script outlives the two passes over its comments. -/
theorem codeText_sublist {pieces : List Piece} (h : IsScript pieces) {previous : Char}
    (hmarks : Undisturbed previous pieces) :
    (codeText pieces).Sublist (dropBetween openingMark closingMark 0
      (dropLineComments false previous (scriptText pieces))) := by
  induction h generalizing previous with
  | nil => exact List.nil_sublist _
  | @code text pieces hslash _ ih =>
    cases hmarks with
    | code hmarks =>
      have hopening : ¬openingMark <:+: text := fun hpart =>
        hslash (hpart.subset List.mem_cons_self)
      have hend : ∀ rest : Text, text.getLast? = some '/' → rest.head? ≠ some '*' := fun _ hlast =>
        absurd (List.mem_of_getLast? hlast) hslash
      rw [codeText_cons, scriptText_cons, Piece.toText, dropLineComments_code hslash,
        dropBetween_append hopening (hend _)]
      exact (List.Sublist.refl text).append (ih hmarks)
  | @line text pieces hline hrest _ ih =>
    cases hmarks with
    | line hguard hmarks =>
      rw [codeText_cons, scriptText_cons, Piece.toText, dropLineComments_line hline hrest]
      split
      · rename_i hcolon
        have hopening := openingMark_of_isGuarded hline (hguard hcolon)
        have hhead : (dropLineComments false '\n' (scriptText pieces)).head? ≠ some '*' := by
          rw [head_dropLineComments_lineFeed hrest]
          rcases hrest with hnone | hfeed
          · rw [hnone]
            exact Option.some_ne_none '*' |>.symm
          · rw [hfeed]
            decide
        rw [dropBetween_append hopening fun _ => hhead]
        exact (ih hmarks).trans (List.sublist_append_right _ _)
      · exact ih hmarks
  | @block text pieces hclosing _ ih =>
    cases hmarks with
    | block hfenced hrest hmarks =>
      have hkept : ¬closingMark <:+: dropLineComments false '*' text := fun hpart =>
        hclosing (closingMark_of_dropLineComments hpart)
      rw [codeText_cons, scriptText_cons, Piece.toText, dropLineComments_block hfenced hrest,
        dropBetween_block hkept]
      exact ih hmarks

/-- At the levels that only drop blanks, the solid characters of the code of a script with
undisturbed marks are all kept, in their order. -/
theorem code_survives {pieces : List Piece} (hscript : IsScript pieces)
    (hmarks : Undisturbed '\n' pieces) {path : Path} (hpath : ending path ∈ scriptEndings)
    {level : Level} (hlevel : level ≠ .aggressive) :
    ∃ output, minify (scriptText pieces) path level = .ok output ∧
      (Text.solid (codeText pieces)).Sublist output := by
  have hcode : (Text.solid (codeText pieces)).Sublist
      (Text.solid (withoutScriptComments (scriptText pieces))) :=
    (codeText_sublist hscript hmarks).filter _
  refine ⟨_, minify_script hpath _ level, hcode.trans ?_⟩
  rw [← solid_withoutBlanks hlevel (ending path)]
  exact List.filter_sublist

/-- A script with comments of both kinds, one of them after a colon and one with an address. -/
def busyScript : List Piece :=
  [.code "a();\n".toList, .block " see http://x\n// old\n ".toList, .code " b:".toList,
   .line " c".toList, .code "\nd(e);".toList, .line " f /* g".toList, .code "\nh".toList]

/-- The code of this script is kept. -/
theorem code_survives_busy :
    IsScript busyScript ∧ Undisturbed '\n' busyScript ∧
      ending (.ofText "x.ts".toList) ∈ scriptEndings ∧ Level.medium ≠ .aggressive ∧
      ∃ output, minify (scriptText busyScript) (.ofText "x.ts".toList) .medium = .ok output ∧
        (Text.solid (codeText busyScript)).Sublist output := by
  have hscript : IsScript busyScript := by
    refine .code (by decide) (.block (by decide) (.code (by decide) (.line (by decide) ?_ (.code
      (by decide) (.line (by decide) ?_ (.code (by decide) .nil))))))
    · exact Or.inr rfl
    · exact Or.inr rfl
  have hmarks : Undisturbed '\n' busyScript := by
    refine .code (.block (by decide) (by decide) (.code (.line ?_ (.code (.line ?_ (.code .nil))))))
    · exact fun _ => isGuarded_of_not_mem (by decide)
    · exact fun h => absurd h (by decide)
  have hpath : ending (.ofText "x.ts".toList) ∈ scriptEndings := by decide
  have hlevel : Level.medium ≠ .aggressive := by decide
  exact ⟨hscript, hmarks, hpath, hlevel, code_survives hscript hmarks hpath hlevel⟩

/-- Two slashes in a block comment take its closing mark away, and code with it. -/
theorem exists_code_lost :
    IsScript [.block " // ".toList, .code " a".toList] ∧
      scriptText [.block " // ".toList, .code " a".toList] = "/* // */ a".toList ∧
      minify "/* // */ a".toList (.ofText "a.js".toList) .medium = .ok "/*".toList ∧
      ¬(Text.solid (codeText [.block " // ".toList, .code " a".toList])).Sublist "/*".toList := by
  have hscript : IsScript [.block " // ".toList, .code " a".toList] :=
    .block (by decide) (.code (by decide) .nil)
  exact ⟨hscript, by decide, by decide, by decide⟩

end SourceLoom.Minify
