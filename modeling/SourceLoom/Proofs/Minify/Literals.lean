import SourceLoom.Proofs.Minify.Removal
import SourceLoom.Proofs.Minify.Space
import SourceLoom.Proofs.Text.InOrder

/-!
# What minification keeps of literals

A script without comments is a row of code and of literals between quotes. The passes over comments
look for their marks in literals too. At the levels that only drop blanks, all literals outlive
minification exactly if none of these marks is in the script: two slashes that no colon precedes,
or an opening mark with a closing one after it, be it in another literal. The marks in addresses
such as those that begin with `https:` do no harm, and neither does an opening mark alone.
-/

namespace SourceLoom.Minify

open Text (InOrder IsTight)

/-- A part of a script without comments. -/
inductive Part where
  /-- Code. -/
  | code (text : Text)
  /-- A literal, by its quote and what stands between two of them. -/
  | literal (quote : Char) (content : Text)
  deriving DecidableEq, Repr

namespace Part

/-- The text of a part. -/
def toText : Part → Text
  | code text => text
  | literal quote content => quote :: content ++ [quote]

/-- The literals of a part, with their quotes. -/
def literals : Part → List Text
  | code _ => []
  | literal quote content => [quote :: content ++ [quote]]

/-- No quote, backslash or slash is in code, and a literal on one line is closed by the quote that
opens it. -/
def IsProper : Part → Prop
  | code text => ∀ c ∈ text, c ∉ ['\'', '"', '\x60', '\\', '/']
  | literal quote content =>
    quote ∈ ['\'', '"'] ∧ ∀ c ∈ content, c ∉ [quote, '\\', '\n']

/-- Whether a part is proper can be computed. -/
instance : DecidablePred IsProper
  | code text => inferInstanceAs (Decidable (∀ c ∈ text, c ∉ ['\'', '"', '\x60', '\\', '/']))
  | literal quote content =>
    inferInstanceAs (Decidable (quote ∈ ['\'', '"'] ∧ ∀ c ∈ content, c ∉ [quote, '\\', '\n']))

/-- The slashes of a proper part are in its literals. -/
theorem count_slash {part : Part} (h : part.IsProper) :
    part.literals.flatten.count '/' = part.toText.count '/' := by
  cases part with
  | code text =>
    have hslash : '/' ∉ text := fun hmem => h '/' hmem (by decide)
    exact (List.count_eq_zero.mpr hslash).symm
  | literal quote content => rw [literals, List.flatten_singleton, toText]

/-- A proper part does not begin with a slash. -/
theorem head_ne_slash {part : Part} (h : part.IsProper) : part.toText.head? ≠ some '/' := by
  intro hhead
  cases part with
  | code text => exact h '/' (List.mem_of_mem_head? hhead) (by decide)
  | literal quote content =>
    obtain rfl : quote = '/' := Option.some.inj hhead
    exact absurd h.1 (by decide)

/-- A proper literal is on one line and has no blanks around it. -/
theorem isTight {part : Part} (h : part.IsProper) : ∀ literal ∈ part.literals, IsTight literal := by
  cases part with
  | code text => exact nofun
  | literal quote content =>
    obtain ⟨hquote, hcontent⟩ := h
    have hsolid : quote ≠ '\n' ∧ Text.isBlank quote = false := by
      rcases List.mem_pair.mp hquote with rfl | rfl <;> decide
    have hfeed : '\n' ∉ content := fun hmem => hcontent '\n' hmem (by simp)
    rw [literals]
    refine List.forall_mem_singleton.mpr ⟨?_, ⟨quote, _, rfl, hsolid.2⟩, ⟨_, quote, rfl, hsolid.2⟩⟩
    simp [hsolid.1.symm, hfeed]

end Part

/-- The text of a script. -/
def partsText (parts : List Part) : Text := parts.flatMap Part.toText

/-- The literals of a script, in order and with their quotes. -/
def literals (parts : List Part) : List Text := parts.flatMap Part.literals

/-- The literals of a script stand in it in order. -/
theorem inOrder_literals (parts : List Part) : InOrder (literals parts) (partsText parts) := by
  induction parts with
  | nil => exact .nil
  | cons part parts ih =>
    rw [literals, partsText, List.flatMap_cons, List.flatMap_cons]
    refine InOrder.append ?_ ih
    cases part with
    | code text => exact .nil
    | literal quote content => exact .whole _

section Parts

variable {parts : List Part}

/-- All slashes of a script are in its literals. -/
theorem count_slash_literals (hparts : ∀ part ∈ parts, part.IsProper) :
    (literals parts).flatten.count '/' = (partsText parts).count '/' := by
  induction parts with
  | nil => rfl
  | cons part parts ih =>
    obtain ⟨hpart, hparts⟩ := List.forall_mem_cons.mp hparts
    rw [literals, partsText, List.flatMap_cons, List.flatMap_cons, List.flatten_append,
      List.count_append, List.count_append, Part.count_slash hpart]
    exact congrArg _ (ih hparts)

/-- A script without comments does not begin with a slash. -/
theorem head_partsText (hparts : ∀ part ∈ parts, part.IsProper) :
    (partsText parts).head? ≠ some '/' := by
  induction parts with
  | nil => nofun
  | cons part parts ih =>
    obtain ⟨hpart, hparts⟩ := List.forall_mem_cons.mp hparts
    rw [partsText, List.flatMap_cons, List.head?_append]
    cases hhead : part.toText.head? with
    | none => exact ih hparts
    | some c => exact fun h => Part.head_ne_slash hpart (hhead.trans h)

/-- The literals of a script are on one line each and have no blanks around them. -/
theorem isTight_literals (hparts : ∀ part ∈ parts, part.IsProper) :
    ∀ literal ∈ literals parts, IsTight literal := by
  intro literal hliteral
  obtain ⟨part, hpart, hmem⟩ := List.mem_flatMap.mp hliteral
  exact Part.isTight (hparts part hpart) literal hmem

end Parts

/-- A mark in a text that does not begin with a slash has a character of the text before it. -/
theorem HasMark.of_cons {c : Char} {text : Text} (h : HasMark (c :: text))
    (hhead : text.head? ≠ some '/') : HasMark text := by
  cases text with
  | nil =>
    obtain ⟨before, d, after, htext, -⟩ := h
    have hlength := congrArg List.length htext
    simp at hlength
    omega
  | cons d text => exact h.tail fun hstart => hhead (congrArg some hstart.1)

/-- Pieces that stay in order in each line of a text stay in order when its blanks are dropped. -/
theorem inOrder_withoutBlanks {pieces : List Text} {text : Text} (h : InOrder pieces text)
    (htight : ∀ piece ∈ pieces, IsTight piece) {level : Level} (hlevel : level ≠ .aggressive)
    (ending : Text) : InOrder pieces (withoutBlanks level ending text) := by
  obtain ⟨groups, hgroups, rfl⟩ := h.inLines htight
  cases level with
  | light => exact hgroups.join ['\n']
  | medium =>
    have hpieces : ∀ group ∈ groups, ∀ piece ∈ group, IsTight piece :=
      fun group hgroup piece hpiece => htight piece (List.mem_flatten.mpr ⟨group, hgroup, hpiece⟩)
    rw [withoutBlanks, strippedLines, filter_map_strip]
    exact (hgroups.strip hpieces).join ['\n']
  | aggressive => exact absurd rfl hlevel

/-- At the levels that only drop blanks, minification removes no slash that the passes over
comments leave. -/
theorem count_slash_withoutBlanks {level : Level} (hlevel : level ≠ .aggressive)
    (ending text : Text) : (withoutBlanks level ending text).count '/' = text.count '/' := by
  have hcount (text : Text) : (Text.solid text).count '/' = text.count '/' :=
    List.count_filter (by decide)
  rw [← hcount, solid_withoutBlanks hlevel, hcount]

/-- At the levels that only drop blanks, all literals of a script without comments outlive
minification, each as it is and in their order, exactly if no two slashes follow a character other
than a colon and no closing mark follows an opening one. -/
theorem literals_survive_iff {parts : List Part} (hparts : ∀ part ∈ parts, part.IsProper)
    {path : Path} (hpath : ending path ∈ scriptEndings) {level : Level}
    (hlevel : level ≠ .aggressive) :
    ∃ output, minify (partsText parts) path level = .ok output ∧
      (InOrder (literals parts) output ↔
        ¬HasMark (partsText parts) ∧ ¬HasBlock (partsText parts)) := by
  refine ⟨_, minify_script hpath _ level, ?_⟩
  constructor
  · intro h
    -- The literals hold all slashes, so the passes must have kept every slash.
    have hcount := h.sublist.count_le '/'
    rw [count_slash_literals hparts, count_slash_withoutBlanks hlevel] at hcount
    obtain ⟨hmark, hblock⟩ := not_hasMark_and_not_hasBlock hcount
    exact ⟨fun h => hmark (h.cons '\n'), hblock⟩
  · rintro ⟨hmark, hblock⟩
    have hstart : ¬HasMark ('\n' :: partsText parts) := fun h =>
      hmark (h.of_cons (head_partsText hparts))
    rw [withoutScriptComments_eq_self hstart hblock]
    exact inOrder_withoutBlanks (inOrder_literals parts) (isTight_literals hparts) hlevel _

/-- A script with an address and a lone opening mark in its literals, and with a blank line. -/
def addressedScript : List Part :=
  [.code "  a = ".toList, .literal '\'' "https://x.org/".toList, .code ";\n\n b = ".toList,
   .literal '"' "it's  /*.js".toList, .code " ;".toList]

/-- Its literals are kept. -/
theorem literals_survive_addressed :
    (∀ part ∈ addressedScript, part.IsProper) ∧
      ending (.ofText "x.ts".toList) ∈ scriptEndings ∧ Level.medium ≠ .aggressive ∧
      ∃ output, minify (partsText addressedScript) (.ofText "x.ts".toList) .medium = .ok output ∧
        InOrder (literals addressedScript) output := by
  have hparts : ∀ part ∈ addressedScript, part.IsProper := by decide
  have hpath : ending (.ofText "x.ts".toList) ∈ scriptEndings := by decide
  have hlevel : Level.medium ≠ .aggressive := by decide
  have hkept : ¬HasMark (partsText addressedScript) ∧ ¬HasBlock (partsText addressedScript) := by
    decide
  obtain ⟨output, houtput, hiff⟩ := literals_survive_iff hparts hpath hlevel
  exact ⟨hparts, hpath, hlevel, output, houtput, hiff.mpr hkept⟩

/-- Two slashes in a literal take the rest of its line away. -/
theorem exists_literal_cut :
    (∀ part ∈ [Part.code "a = ".toList, .literal '\'' "//b".toList], part.IsProper) ∧
      partsText [.code "a = ".toList, .literal '\'' "//b".toList] = "a = '//b'".toList ∧
      minify "a = '//b'".toList (.ofText "a.js".toList) .medium = .ok "a = '".toList ∧
      ¬InOrder (literals [.code "a = ".toList, .literal '\'' "//b".toList]) "a = '".toList := by
  have hparts : ∀ part ∈ [Part.code "a = ".toList, .literal '\'' "//b".toList], part.IsProper := by
    decide
  have hcut : minify "a = '//b'".toList (.ofText "a.js".toList) .medium =
      .ok "a = '".toList := by decide
  exact ⟨hparts, rfl, hcut, fun h => absurd h.sublist (by decide)⟩

end SourceLoom.Minify
