import Mathlib.Data.List.Infix
import SourceLoom.Document
import SourceLoom.Proofs.Text.Lines

/-!
# Texts between rulers

In a document of files with banners, rulers stand nowhere but in the banners, if there is none in
the shown paths and in the contents. A ruler comes after a line feed, and no line feed is in it, so
the text before the next ruler is always the same, however the text goes on. From the stripped
document the shown paths and the contents can be told, but for the blanks at its very end.
-/

namespace SourceLoom.Text

variable {c : Char} {text rest : Text}

/-- A text that ends with a character that is not blank is not stripped at its right end. -/
theorem stripRight_append_cons (hc : isBlank c = false) (text rest : Text) :
    stripRight (text ++ c :: rest) = text ++ c :: stripRight rest := by
  have hstop : (c :: text.reverse).dropWhile isBlank = c :: text.reverse :=
    List.dropWhile_cons_of_neg (by simp [hc])
  have hreverse : (text ++ c :: rest).reverse = rest.reverse ++ c :: text.reverse := by simp
  unfold stripRight
  rw [hreverse, List.dropWhile_append]
  split
  · rename_i hrest
    rw [List.isEmpty_iff.mp hrest, hstop]
    simp
  · simp

/-- A text that has characters which are not blank is stripped like its end. -/
theorem stripRight_append (h : stripRight rest ≠ []) (text : Text) :
    stripRight (text ++ rest) = text ++ stripRight rest := by
  have hne : (rest.reverse.dropWhile isBlank).isEmpty = false := by
    cases hdrop : rest.reverse.dropWhile isBlank with
    | nil =>
      rw [stripRight, hdrop] at h
      exact absurd rfl h
    | cons c more => rfl
  unfold stripRight
  rw [List.reverse_append, List.dropWhile_append, hne]
  simp

/-- Blanks at the end of a text do not matter to stripping it. -/
theorem stripRight_append_of_eq_nil (h : stripRight rest = []) (text : Text) :
    stripRight (text ++ rest) = stripRight text := by
  have hnil : rest.reverse.dropWhile isBlank = [] := List.reverse_eq_nil_iff.mp h
  unfold stripRight
  rw [List.reverse_append, List.dropWhile_append, hnil]
  rfl

/-- A piece without a character that begins a text stands before the first such character. -/
theorem isPrefix_of_append_cons {piece before after : Text} (hc : c ∉ piece)
    (h : piece <+: before ++ c :: after) : piece <+: before := by
  obtain ⟨more, hmore⟩ := h
  rcases List.append_eq_append_iff.mp hmore with ⟨extra, rfl, -⟩ | ⟨extra, rfl, hextra⟩
  · exact List.prefix_append _ _
  · cases extra with
    | nil =>
      rw [List.append_nil]
    | cons d extra =>
      obtain ⟨rfl, -⟩ := List.cons.inj hextra
      exact absurd (List.mem_append_right before List.mem_cons_self) hc

end SourceLoom.Text

namespace SourceLoom.Document

/-- No line feed is in a ruler. -/
theorem not_mem_ruler {c : Char} (h : c ≠ '=') : c ∉ ruler := fun hc =>
  h (List.eq_of_mem_replicate hc)

/-- Two texts without rulers that go on with a line feed and a ruler, and are the same with what
follows, are the same. -/
theorem eq_of_ruler {piece other rest more : Text} (hpiece : ¬ ruler <:+: piece)
    (hother : ¬ ruler <:+: other)
    (h : piece ++ '\n' :: (ruler ++ rest) = other ++ '\n' :: (ruler ++ more)) :
    piece = other ∧ rest = more := by
  -- whichever text is longer would have the ruler that ends the other one
  have hlonger {piece other rest more : Text} (hother : ¬ ruler <:+: piece ++ other)
      (h : '\n' :: (ruler ++ rest) = other ++ '\n' :: (ruler ++ more)) : other = [] := by
    cases other with
    | nil => rfl
    | cons c other =>
      obtain ⟨-, hrest⟩ := List.cons.inj h
      have hprefix : ruler <+: other ++ '\n' :: (ruler ++ more) := ⟨rest, hrest⟩
      have hinside := Text.isPrefix_of_append_cons (not_mem_ruler (by decide)) hprefix
      have hsuffix : other <:+ piece ++ c :: other := ⟨piece ++ [c], by simp⟩
      exact absurd (hinside.isInfix.trans hsuffix.isInfix) hother
  rcases List.append_eq_append_iff.mp h with ⟨extra, rfl, hextra⟩ | ⟨extra, rfl, hextra⟩
  · have hnil := hlonger hother hextra
    subst hnil
    rw [List.nil_append, List.cons_inj_right, List.append_cancel_left_eq] at hextra
    exact ⟨(List.append_nil _).symm, hextra⟩
  · have hnil := hlonger hpiece hextra
    subst hnil
    rw [List.nil_append, List.cons_inj_right, List.append_cancel_left_eq] at hextra
    exact ⟨List.append_nil _, hextra.symm⟩

/-- A file in a document: its path as it is shown, and its content as it stands there. -/
structure Section where
  /-- The path that its banner shows. -/
  path : Text
  /-- What stands below the banner. -/
  content : Text
  deriving DecidableEq, Repr

namespace Section

/-- The title in the banner of a section. -/
def title (file : Section) : Text := "File: ".toList ++ file.path

/-- The text of a section. -/
def toText (file : Section) : Text := banner file.title ++ file.content ++ ['\n']

/-- No ruler is in the path or in the content of a section. -/
structure IsRulerFree (file : Section) : Prop where
  /-- No ruler is in the path. -/
  path : ¬ ruler <:+: file.path
  /-- No ruler is in the content. -/
  content : ¬ ruler <:+: file.content

instance (file : Section) : Decidable file.IsRulerFree :=
  decidable_of_iff (¬ ruler <:+: file.path ∧ ¬ ruler <:+: file.content)
    ⟨fun h => ⟨h.1, h.2⟩, fun h => ⟨h.path, h.content⟩⟩

/-- What follows the banner of a section, with the sections after it, stripped at the end. -/
def remainder (file : Section) (files : List Section) : Text :=
  Text.stripRight ('\n' :: '\n' :: file.content ++ '\n' :: files.flatMap toText)

end Section

open Section

/-- The text of sections, stripped at the end. -/
def bodyOf (files : List Section) : Text := Text.stripRight (files.flatMap toText)

variable {file other : Section} {files others : List Section}

/-- The text of sections begins with the first banner. -/
theorem bodyOf_cons (file : Section) (files : List Section) :
    bodyOf (file :: files) =
      '\n' :: (ruler ++ '\n' :: (file.title ++ '\n' :: (ruler ++ file.remainder files))) := by
  obtain ⟨run, hruler⟩ : ∃ run, ruler = run ++ ['='] := ⟨List.replicate 49 '=', rfl⟩
  have htext : (file :: files).flatMap toText =
      ('\n' :: (ruler ++ '\n' :: (file.title ++ '\n' :: run))) ++
        '=' :: ('\n' :: '\n' :: file.content ++ '\n' :: files.flatMap toText) := by
    rw [List.flatMap_cons, toText, banner, hruler]
    simp
  rw [bodyOf, htext, Text.stripRight_append_cons (by decide)]
  simp [hruler, remainder]

/-- Stripping a document only takes the line feed before the first banner, besides what it takes
at the end. -/
theorem strip_flatMap_toText (files : List Section) :
    Text.strip (files.flatMap toText) = (bodyOf files).drop 1 := by
  cases files with
  | nil => rfl
  | cons file files =>
    have htext : (file :: files).flatMap toText =
        '\n' :: '=' :: ((file :: files).flatMap toText).drop 2 := rfl
    have hleft : Text.stripLeft ((file :: files).flatMap toText) =
        '=' :: ((file :: files).flatMap toText).drop 2 := by
      rw [htext]
      rfl
    have hright := Text.stripRight_append_cons (c := '=') (by decide) ['\n']
      (((file :: files).flatMap toText).drop 2)
    have hkept := Text.stripRight_append_cons (c := '=') (by decide) []
      (((file :: files).flatMap toText).drop 2)
    rw [Text.strip, hleft, bodyOf, htext]
    exact hkept.trans (congrArg (List.drop 1) hright).symm

/-- Two documents are the same exactly if their sections are, stripped at the end. -/
theorem strip_eq_iff : Text.strip (files.flatMap toText) = Text.strip (others.flatMap toText) ↔
    bodyOf files = bodyOf others := by
  rw [strip_flatMap_toText, strip_flatMap_toText]
  refine ⟨fun h => ?_, fun h => congrArg (List.drop 1) h⟩
  cases files with
  | nil =>
    cases others with
    | nil => rfl
    | cons other others =>
      rw [bodyOf_cons] at h
      exact absurd h.symm (List.cons_ne_nil '=' _)
  | cons file files =>
    cases others with
    | nil =>
      rw [bodyOf_cons] at h
      exact absurd h (List.cons_ne_nil '=' _)
    | cons other others =>
      rw [bodyOf_cons, bodyOf_cons] at h ⊢
      exact congrArg ('\n' :: ·) h

/-- After the last banner nothing is left of a blank content, and else the content without the
blanks at its end. -/
theorem Section.remainder_nil (file : Section) : file.remainder [] =
    if Text.stripRight file.content = [] then []
    else '\n' :: '\n' :: Text.stripRight file.content := by
  have hfeed : Text.stripRight ['\n'] = [] := by decide
  have hfeeds : Text.stripRight ['\n', '\n'] = [] := by decide
  have hcontent : file.remainder [] = Text.stripRight (['\n', '\n'] ++ file.content) :=
    Text.stripRight_append_of_eq_nil hfeed _
  rw [hcontent]
  split
  · rename_i hblank
    rw [Text.stripRight_append_of_eq_nil hblank, hfeeds]
  · rename_i hsolid
    exact Text.stripRight_append hsolid _

/-- After any other banner comes the whole content. -/
theorem Section.remainder_cons (file next : Section) (files : List Section) :
    file.remainder (next :: files) =
      '\n' :: '\n' :: file.content ++ '\n' :: bodyOf (next :: files) := by
  have hbody : bodyOf (next :: files) ≠ [] := by
    rw [bodyOf_cons]
    exact List.cons_ne_nil _ _
  have htext : '\n' :: '\n' :: file.content ++ '\n' :: (next :: files).flatMap toText =
      ('\n' :: '\n' :: file.content ++ ['\n']) ++ (next :: files).flatMap toText := by simp
  rw [remainder, htext, Text.stripRight_append hbody]
  simp [bodyOf]

/-- No ruler is in a title. -/
theorem Section.IsRulerFree.title (h : file.IsRulerFree) : ¬ ruler <:+: file.title := by
  intro htitle
  have hspace : file.title = "File:".toList ++ ' ' :: file.path := rfl
  rw [hspace] at htitle
  rcases Text.isInfix_append_cons (not_mem_ruler (by decide)) htitle with hmark | hpath
  · exact absurd hmark.length_le (by decide)
  · exact h.path hpath

/-- No ruler is in a content with the line feeds around it. -/
theorem Section.IsRulerFree.surrounded (h : file.IsRulerFree) :
    ¬ ruler <:+: '\n' :: '\n' :: file.content ++ ['\n'] := by
  have hfeed : '\n' ∉ ruler := not_mem_ruler (by decide)
  have hnil : ¬ ruler <:+: [] := fun hinfix => absurd hinfix.length_le (by decide)
  intro hsurrounded
  rcases Text.isInfix_append_cons hfeed hsurrounded with hbefore | hafter
  · have hfirst : ruler <:+: [] ++ '\n' :: '\n' :: file.content := hbefore
    rcases Text.isInfix_append_cons hfeed hfirst with hempty | hinner
    · exact hnil hempty
    · have hsecond : ruler <:+: [] ++ '\n' :: file.content := hinner
      rcases Text.isInfix_append_cons hfeed hsecond with hempty | hcontent
      · exact hnil hempty
      · exact h.content hcontent
  · exact hnil hafter

/-- Two documents with a first section have the same first path, and the same after its banner. -/
theorem bodyOf_cons_eq_iff (hfile : file.IsRulerFree) (hother : other.IsRulerFree) :
    bodyOf (file :: files) = bodyOf (other :: others) ↔
      file.path = other.path ∧ file.remainder files = other.remainder others := by
  rw [bodyOf_cons, bodyOf_cons, List.cons_inj_right, List.append_cancel_left_eq,
    List.cons_inj_right]
  constructor
  · intro h
    obtain ⟨htitle, hrest⟩ := eq_of_ruler hfile.title hother.title h
    exact ⟨List.append_cancel_left htitle, hrest⟩
  · rintro ⟨hpath, hrest⟩
    have htitle : file.title = other.title := congrArg ("File: ".toList ++ ·) hpath
    rw [htitle, hrest]

/-- Of a last content all can be told but the blanks at its end. -/
theorem remainder_nil_eq_iff : file.remainder [] = other.remainder [] ↔
    Text.stripRight file.content = Text.stripRight other.content := by
  rw [Section.remainder_nil, Section.remainder_nil]
  split <;> split <;> simp_all

/-- A last content is not taken for one with a section after it. -/
theorem remainder_nil_ne_cons (hfile : file.IsRulerFree) (other next : Section)
    (others : List Section) : file.remainder [] ≠ other.remainder (next :: others) := by
  intro h
  have hruler : ruler <:+: other.remainder (next :: others) := by
    rw [Section.remainder_cons, bodyOf_cons]
    exact ⟨'\n' :: '\n' :: other.content ++ ['\n', '\n'],
      '\n' :: (next.title ++ '\n' :: (ruler ++ next.remainder others)), by simp⟩
  have hsurrounded : file.remainder [] <:+: '\n' :: '\n' :: file.content ++ ['\n'] := by
    rw [Section.remainder]
    exact (Text.stripRight_isPrefix _).isInfix
  exact hfile.surrounded ((h ▸ hruler).trans hsurrounded)

/-- A content with a section after it can be told, and so can what follows it. -/
theorem remainder_cons_eq_iff (hfile : file.IsRulerFree) (hother : other.IsRulerFree)
    {next later : Section} :
    file.remainder (next :: files) = other.remainder (later :: others) ↔
      file.content = other.content ∧ bodyOf (next :: files) = bodyOf (later :: others) := by
  constructor
  · intro h
    rw [Section.remainder_cons, Section.remainder_cons, bodyOf_cons, bodyOf_cons] at h
    have hsame : ('\n' :: '\n' :: file.content ++ ['\n']) ++ '\n' :: (ruler ++
          '\n' :: (next.title ++ '\n' :: (ruler ++ next.remainder files))) =
        ('\n' :: '\n' :: other.content ++ ['\n']) ++ '\n' :: (ruler ++
          '\n' :: (later.title ++ '\n' :: (ruler ++ later.remainder others))) := by
      simpa using h
    obtain ⟨hcontent, hrest⟩ := eq_of_ruler hfile.surrounded hother.surrounded hsame
    refine ⟨by simpa using hcontent, ?_⟩
    rw [bodyOf_cons, bodyOf_cons, hrest]
  · rintro ⟨hcontent, hbody⟩
    rw [Section.remainder_cons, Section.remainder_cons, hcontent, hbody]

/-- Two lists of texts agree up to the blanks at the end of the last one. -/
def AgreeUpToEnd (contents others : List Text) : Prop :=
  contents.dropLast = others.dropLast ∧
    contents.getLast?.map Text.stripRight = others.getLast?.map Text.stripRight

instance (contents others : List Text) : Decidable (AgreeUpToEnd contents others) :=
  inferInstanceAs (Decidable (_ ∧ _))

/-- Sections without rulers can be told from their stripped text, but for the blanks at the end of
the last content. -/
theorem bodyOf_eq_iff (hfiles : ∀ file ∈ files, file.IsRulerFree)
    (hothers : ∀ other ∈ others, other.IsRulerFree) :
    bodyOf files = bodyOf others ↔ files.map (·.path) = others.map (·.path) ∧
      AgreeUpToEnd (files.map (·.content)) (others.map (·.content)) := by
  induction files generalizing others with
  | nil =>
    cases others with
    | nil => exact iff_of_true rfl ⟨rfl, rfl, rfl⟩
    | cons other others =>
      have hbody : bodyOf [] ≠ bodyOf (other :: others) := by
        rw [bodyOf_cons]
        exact (List.cons_ne_nil _ _).symm
      exact iff_of_false hbody fun h => (List.cons_ne_nil _ _).symm h.1
  | cons file files ih =>
    cases others with
    | nil =>
      have hbody : bodyOf (file :: files) ≠ bodyOf [] := by
        rw [bodyOf_cons]
        exact List.cons_ne_nil _ _
      exact iff_of_false hbody fun h => List.cons_ne_nil _ _ h.1
    | cons other others =>
      obtain ⟨hfile, hfiles⟩ := List.forall_mem_cons.mp hfiles
      obtain ⟨hother, hothers⟩ := List.forall_mem_cons.mp hothers
      rw [bodyOf_cons_eq_iff hfile hother]
      cases files with
      | nil =>
        cases others with
        | nil =>
          rw [remainder_nil_eq_iff]
          simp [AgreeUpToEnd]
        | cons later others =>
          have hne := remainder_nil_ne_cons hfile other later others
          exact iff_of_false (fun h => hne h.2) fun h => by simp at h
      | cons next files =>
        cases others with
        | nil =>
          have hne := remainder_nil_ne_cons hother file next files
          exact iff_of_false (fun h => hne h.2.symm) fun h => by simp at h
        | cons later others =>
          rw [remainder_cons_eq_iff hfile hother, ih hfiles hothers]
          simp only [AgreeUpToEnd, List.map_cons, List.cons.injEq, List.dropLast_cons_cons,
            List.getLast?_cons_cons]
          tauto

end SourceLoom.Document
