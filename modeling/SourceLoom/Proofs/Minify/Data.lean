import SourceLoom.Proofs.Json.Outside
import SourceLoom.Proofs.Minify.Levels

/-!
# Minified JSON

A file of JSON is read and written anew in the compact layout. Without fractions its text is one
line with no blank at its ends, on which the levels find nothing to remove: so the value is read
from the minified text again, and what is minified stays as it is. Names that are given twice are
given once from then on.
-/

namespace SourceLoom

namespace Text

variable {text : Text}

/-- A text without the separator is one piece. -/
theorem splitOn_of_not_mem {separator : Char} (h : separator ∉ text) :
    splitOn separator text = [text] := by
  have hpieces := splitOn_append_of_not_mem h []
  rw [List.append_nil] at hpieces
  rw [hpieces, splitOn, List.modifyHead_cons, List.append_nil]

/-- A tight text is not changed by stripping. -/
theorem IsTight.strip_eq (h : IsTight text) : strip text = text := by
  obtain ⟨c, rest, rfl, hc⟩ := h.starts
  obtain ⟨front, last, htext, hlast⟩ := h.ends
  exact strip_eq_self hc hlast htext

/-- A tight text is not empty. -/
theorem IsTight.ne_nil (h : IsTight text) : text ≠ [] := by
  obtain ⟨c, rest, rfl, -⟩ := h.starts
  exact List.cons_ne_nil c rest

end Text

namespace Minify

open Text

variable {content : Text} {path : Path} {value : Json}

/-- Where a file may not be collapsed, no level changes a tight text. -/
theorem withoutBlanks_tight {ending text : Text} (hending : ending ∉ collapsibleEndings)
    (h : IsTight text) (level : Level) : withoutBlanks level ending text = text := by
  have hline := splitOn_of_not_mem h.no_feed
  have hlight : withoutBlankLines text = text := by
    rw [withoutBlankLines, hline, List.filter_cons_of_pos (by simpa [h.strip_eq] using h.ne_nil)]
    rfl
  have hmedium : strippedLines text = text := by
    rw [strippedLines, hline, List.map_singleton, h.strip_eq,
      List.filter_cons_of_pos (by simpa using h.ne_nil)]
    rfl
  cases level with
  | light => exact hlight
  | medium => exact hmedium
  | aggressive => exact (withoutBlanks_aggressive hending text).trans hmedium

/-- A file of JSON is never collapsed. -/
theorem not_mem_collapsibleEndings_data : ".json".toList ∉ collapsibleEndings := by decide

/-- What is read from a file of JSON without fractions is written anew, at every level. -/
theorem minify_eq_toText (hpath : ending path = ".json".toList)
    (hread : Json.read Text.digitLimit content = .ok value) (hwhole : value.IsWhole)
    (level : Level) : minify content path level = .ok (value.toText .compact) := by
  have hexact := hwhole.isExact (Json.isReadable_of_read hread)
  have hfamily : Family.ofEnding ".json".toList = .data := by decide
  have hbare : withoutComments (.ofEnding (ending path)) content = .ok (value.toText .compact) := by
    rw [hpath, hfamily, withoutComments, rewritten, hread]
  rw [minify_of_bare hbare level, hpath,
    withoutBlanks_tight not_mem_collapsibleEndings_data hexact.isTight_toText level]

/-- Minifying a file of JSON without fractions keeps its value, with its names in their order. No
blank is left outside of its strings, and minifying it again changes nothing. -/
theorem minify_keeps_value (hpath : ending path = ".json".toList)
    (hread : Json.read Text.digitLimit content = .ok value) (hwhole : value.IsWhole)
    (level : Level) :
    ∃ output, minify content path level = .ok output ∧
      Json.read Text.digitLimit output = .ok value ∧
      (∀ c ∈ Json.outsideStrings false output, isBlank c = false) ∧
      ∀ again, minify output path again = .ok output := by
  have hexact := hwhole.isExact (Json.isReadable_of_read hread)
  have hagain : Json.read Text.digitLimit (value.toText .compact) = .ok value :=
    Json.read_toText Json.Layout.isSpaced_compact hexact
  exact ⟨_, minify_eq_toText hpath hread hwhole level, hagain, hwhole.outside_toText,
    fun again => minify_eq_toText hpath hagain hwhole again⟩

/-- An object over several lines, with a name that is given twice and escapes of many kinds. -/
def spacedData : Text :=
  "\n\x7b \"b\\u0020\" : [-0],\t\"a\":[12345678901234567890 , \"\\ud83d\\ude00\\n\\/ \"],\n\"b \": \x7b \x7d \x7d ".toList

/-- Its value: the name that is given twice has its first place and its last value. -/
def spacedValue : Json :=
  .object [("b ".toList, .object []),
    ("a".toList, .array [.int 12345678901234567890, .string "😀\n/ ".toList])]

/-- The names, the number and the text of such a value. -/
def spacedParts? : Json → Option (Text × Text × Int × Text)
  | .object [(first, .object []), (second, .array [.int number, .string text])] =>
    some (first, second, number, text)
  | _ => none

/-- A value with the same parts is the same. -/
theorem eq_spacedValue {value : Json} (h : spacedParts? value = spacedParts? spacedValue) :
    value = spacedValue := by
  unfold spacedParts? at h
  split at h
  · cases h
    rfl
  · cases h

/-- It is minified to its value on one line. -/
theorem minify_keeps_value_spaced :
    ending (.ofText "x.JsOn".toList) = ".json".toList ∧
      Json.read Text.digitLimit spacedData = .ok spacedValue ∧
      minify spacedData (.ofText "x.JsOn".toList) .light =
        .ok "\x7b\"b \":\x7b\x7d,\"a\":[12345678901234567890,\"😀\\n/ \"]\x7d".toList ∧
      Json.read Text.digitLimit
        "\x7b\"b \":\x7b\x7d,\"a\":[12345678901234567890,\"😀\\n/ \"]\x7d".toList =
          .ok spacedValue := by
  have hpath : ending (.ofText "x.JsOn".toList) = ".json".toList := by decide
  have hread : Json.read Text.digitLimit spacedData = .ok spacedValue := by
    have hparts : (Json.read Text.digitLimit spacedData).toOption.map spacedParts? =
        some (spacedParts? spacedValue) := by decide +kernel
    cases hread : Json.read Text.digitLimit spacedData with
    | error fault =>
      rw [hread] at hparts
      cases hparts
    | ok value =>
      rw [hread] at hparts
      rw [eq_spacedValue (Option.some.inj hparts)]
  have hitems : ∀ item ∈ [Json.int 12345678901234567890, .string "😀\n/ ".toList], item.IsWhole :=
    List.forall_mem_cons.mpr ⟨.int _, List.forall_mem_cons.mpr ⟨.string _, List.forall_mem_nil _⟩⟩
  have hwhole : spacedValue.IsWhole :=
    .object (List.forall_mem_cons.mpr ⟨.object (List.forall_mem_nil _),
      List.forall_mem_cons.mpr ⟨.array hitems, List.forall_mem_nil _⟩⟩)
  have hwritten : spacedValue.toText .compact =
      "\x7b\"b \":\x7b\x7d,\"a\":[12345678901234567890,\"😀\\n/ \"]\x7d".toList := by decide
  have hsmall := minify_eq_toText hpath hread hwhole .light
  obtain ⟨output, houtput, hagain, -⟩ := minify_keeps_value hpath hread hwhole .light
  cases hsmall.symm.trans houtput
  rw [hwritten] at hsmall hagain
  exact ⟨hpath, hread, hsmall, hagain⟩

end Minify

end SourceLoom
