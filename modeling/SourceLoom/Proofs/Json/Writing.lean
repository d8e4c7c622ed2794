import SourceLoom.Proofs.Json.Reading

/-!
# What is written without fractions

A text is written for a value by joining few kinds of parts: words, whole numbers, strings, the
signs of arrays and objects, and what the layout puts between them. A property that texts keep when
they are joined holds of everything that is written if it holds of the parts. For fractions, which
are written by rules of their own, nothing is said.
-/

namespace SourceLoom.Json

/-- A value without fractions. -/
inductive IsWhole : Json → Prop where
  /-- Nothing. -/
  | null : IsWhole .null
  /-- A truth value. -/
  | bool (value : Bool) : IsWhole (.bool value)
  /-- A whole number. -/
  | int (value : Int) : IsWhole (.int value)
  /-- A text. -/
  | string (text : Text) : IsWhole (.string text)
  /-- Items without fractions. -/
  | array {items : List Json} (h : ∀ item ∈ items, IsWhole item) : IsWhole (.array items)
  /-- Members without fractions. -/
  | object {members : List (Text × Json)} (h : ∀ member ∈ members, IsWhole member.2) :
      IsWhole (.object members)

/-- An exact value has no fractions. -/
theorem IsExact.isWhole {limit : Option Nat} {value : Json} (h : IsExact limit value) :
    IsWhole value := by
  induction h with
  | null => exact .null
  | bool value => exact .bool value
  | @int value _ => exact .int value
  | string text => exact .string text
  | array _ ih => exact .array ih
  | object _ _ ih => exact .object ih

/-- A property of texts that texts keep when they are joined, and that each part has from which a
layout writes values without fractions. -/
structure Layout.Carries (layout : Layout) (P : Text → Prop) : Prop where
  /-- Joined texts have the property if both have it. -/
  append : ∀ {text more}, P text → P more → P (text ++ more)
  /-- The brackets and braces have it. -/
  sign : ∀ c ∈ ['[', ']', '\x7b', '\x7d'], P [c]
  /-- The words have it. -/
  word : ∀ word ∈ ["null".toList, "true".toList, "false".toList], P word
  /-- The whole numbers have it. -/
  int : ∀ n, P (Text.ofInt n)
  /-- The strings have it. -/
  string : ∀ text, P (writtenString layout.asciiOnly text)
  /-- What stands between items has it. -/
  itemSeparator : P layout.itemSeparator
  /-- What stands between a name and its value has it. -/
  nameSeparator : P layout.nameSeparator
  /-- What stands before an item has it. -/
  newline : ∀ level, P (layout.newline level)

namespace Layout.Carries

variable {layout : Layout} {P : Text → Prop}

/-- A closing sign after what stands before an item. -/
theorem closing (h : layout.Carries P) (level : Nat) {c : Char}
    (hc : c ∈ ['[', ']', '\x7b', '\x7d']) : P (layout.newline level ++ [c]) :=
  h.append (h.newline level) (h.sign c hc)

/-- An opening sign before the line of the first item. -/
theorem opening (h : layout.Carries P) (level : Nat) {c : Char}
    (hc : c ∈ ['[', ']', '\x7b', '\x7d']) : P (c :: layout.newline level) :=
  h.append (h.sign c hc) (h.newline level)

/-- What stands between two items and before the second. -/
theorem between (h : layout.Carries P) (level : Nat) :
    P (layout.itemSeparator ++ layout.newline level) :=
  h.append h.itemSeparator (h.newline level)

/-- A member is written with the property if its value is. -/
theorem member (h : layout.Carries P) {front text : Text} (hfront : P front) (name : Text)
    (htext : P text) :
    P (front ++ writtenString layout.asciiOnly name ++ layout.nameSeparator ++ text) :=
  h.append (h.append (h.append hfront (h.string name)) h.nameSeparator) htext

/-- Items after the first are written with the property if each of them is. -/
theorem writeItems (h : layout.Carries P) {level : Nat} {items : List Json}
    (hitems : ∀ item ∈ items, P (write layout (level + 1) item)) :
    P (Json.writeItems layout level items) := by
  induction items with
  | nil => exact h.closing level (by decide)
  | cons item items ih =>
    obtain ⟨hitem, hitems⟩ := List.forall_mem_cons.mp hitems
    rw [Json.writeItems]
    exact h.append (h.append (h.between _) hitem) (ih hitems)

/-- Members after the first are written with the property if each of their values is. -/
theorem writeMembers (h : layout.Carries P) {level : Nat} {members : List (Text × Json)}
    (hmembers : ∀ member ∈ members, P (write layout (level + 1) member.2)) :
    P (Json.writeMembers layout level members) := by
  induction members with
  | nil => exact h.closing level (by decide)
  | cons first members ih =>
    obtain ⟨name, value⟩ := first
    obtain ⟨hvalue, hmembers⟩ := List.forall_mem_cons.mp hmembers
    rw [Json.writeMembers]
    exact h.append (h.member (h.between _) name hvalue) (ih hmembers)

/-- Every value without fractions is written with the property. -/
theorem write (h : layout.Carries P) {value : Json} (hvalue : value.IsWhole) (level : Nat) :
    P (Json.write layout level value) := by
  induction hvalue generalizing level with
  | null => exact h.word "null".toList (by decide)
  | bool value =>
    cases value with
    | true => exact h.word "true".toList (by decide)
    | false => exact h.word "false".toList (by decide)
  | int n => exact h.int n
  | string text => exact h.string text
  | @array items _ ih =>
    cases items with
    | nil => exact h.append (h.sign '[' (by decide)) (h.sign ']' (by decide))
    | cons item items =>
      obtain ⟨hitem, hitems⟩ := List.forall_mem_cons.mp ih
      rw [Json.write]
      exact h.append (h.append (h.opening _ (by decide)) (hitem _))
        (h.writeItems fun item hmem => hitems item hmem _)
  | @object members _ ih =>
    cases members with
    | nil => exact h.append (h.sign '\x7b' (by decide)) (h.sign '\x7d' (by decide))
    | cons first members =>
      obtain ⟨name, value⟩ := first
      obtain ⟨hvalue, hmembers⟩ := List.forall_mem_cons.mp ih
      rw [Json.write]
      exact h.append (h.member (h.opening _ (by decide)) name (hvalue _))
        (h.writeMembers fun member hmem => hmembers member hmem _)

end Layout.Carries

end SourceLoom.Json
