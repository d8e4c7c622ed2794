import SourceLoom.Pattern.Basic

/-!
# Widths of patterns

The least and the greatest number of characters in a piece of a pattern, as far as the written
pattern shows it. Both are counted up to a bound only, which also stands for no bound at all.
-/

namespace SourceLoom.Pattern

/-- Widths are counted up to here. -/
def widthBound : Nat := Nat.pow 2 64

/-- The least and the greatest number of characters in a piece. -/
structure Width where
  /-- The least number. -/
  least : Nat
  /-- The greatest number. -/
  most : Nat
  deriving DecidableEq, Repr

/-- The widths that are counted. -/
def Width.bounded (width : Width) : Width := ⟨min width.least widthBound, min width.most widthBound⟩

/-- The width of a pattern. The widths of the groups it refers to are given. -/
def width (groups : Nat → Width) : Pattern → Width
  | empty => ⟨0, 0⟩
  | char _ => ⟨1, 1⟩
  | anchor _ => ⟨0, 0⟩
  | seq p q =>
    let first := width groups p
    let second := width groups q
    Width.bounded ⟨first.least + second.least, first.most + second.most⟩
  | alt p q =>
    let first := width groups p
    let second := width groups q
    ⟨min first.least second.least, max first.most second.most⟩
  | loop _ least most p =>
    let round := width groups p
    Width.bounded ⟨round.least * least,
      match most with
      | some most => round.most * most
      | none => if round.most = 0 then 0 else widthBound⟩
  | group _ p => width groups p
  | atomic p => width groups p
  | ahead _ _ => ⟨0, 0⟩
  | behind _ _ _ => ⟨0, 0⟩
  | again _ index => groups index
  | ifGroup _ p q =>
    let first := width groups p
    let second := width groups q
    ⟨min first.least second.least, max first.most second.most⟩

end SourceLoom.Pattern
