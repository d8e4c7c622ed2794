import Mathlib.Algebra.GroupWithZero.Nat
import Mathlib.Algebra.Ring.Int.Defs
import SourceLoom.Proofs.Json.Outside

/-!
# How long rewritten JSON is

Written anew in the compact layout, a value takes no more room than the text gives that it was read
from: every sign, string and whole number of it pays for its own, gaps pay for nothing, and members
that are given again pay for what is not written. Only fractions may be longer than they were, as an
exponent may be written out and a point is never left out. By how much they are is counted in the
text itself, over the tokens that stand outside of its strings.
-/

namespace SourceLoom.Json

/-- The stretches between the separators outside of strings. -/
def tokens (text : Text) : List Text := (outsideStrings false text).splitOnP isSeparator

/-- By how much a token is longer when it is written anew, if it is a fraction. -/
def growthOf (token : Text) : Int :=
  match scalar none token with
  | .ok (.float x, []) => (x.toText numberLayout).length - token.length
  | _ => 0

/-- By how much all fractions in a text are longer when they are written anew. -/
def growth (text : Text) : Int := ((tokens text).map growthOf).sum

/-- The room that a text gives to what is written anew. -/
def room (text : Text) : Int := text.length + growth text

/-- A text before which a token ends. -/
def EndsToken (text : Text) : Prop := ∀ c ∈ text.head?, isSeparator c = true

section Room

variable {text left gap token body name : Text} {c : Char}

/-- A separator ends a token. -/
theorem endsToken_cons (hc : isSeparator c = true) (text : Text) : EndsToken (c :: text) := by
  intro first hfirst
  cases hfirst
  exact hc

/-- What may stand in a gap separates. -/
theorem isSeparator_of_isSpace (hc : isSpace c = true) : isSeparator c = true := by
  rw [isSeparator, hc]
  rfl

/-- No quote may stand in a gap. -/
theorem ne_quote_of_isSpace (hc : isSpace c = true) : c ≠ '"' := by
  rintro rfl
  cases hc

/-- A gap ends a token if what comes after it does. -/
theorem endsToken_gap (hgap : IsGap gap) (h : EndsToken text) : EndsToken (gap ++ text) := by
  cases gap with
  | nil => exact h
  | cons c gap => exact endsToken_cons (isSeparator_of_isSpace (hgap c List.mem_cons_self)) _

/-- Nothing does not grow. -/
theorem growthOf_nil : growthOf [] = 0 := rfl

/-- A separator that is no quote stands between tokens. -/
theorem growth_cons (hc : isSeparator c = true) (hquote : c ≠ '"') (text : Text) :
    growth (c :: text) = growth text := by
  have hsplit : tokens (c :: text) = [] :: tokens text := by
    rw [tokens, outsideStrings, decide_eq_false hquote, List.splitOnP_cons_eq_if_modifyHead,
      if_pos hc]
    rfl
  rw [growth, hsplit, List.map_cons, List.sum_cons, growthOf_nil, zero_add]
  rfl

/-- A gap stands between tokens. -/
theorem growth_gap (hgap : IsGap gap) (text : Text) : growth (gap ++ text) = growth text := by
  induction gap with
  | nil => rfl
  | cons c gap ih =>
    obtain ⟨hc, hgap⟩ := List.forall_mem_cons.mp hgap
    rw [List.cons_append, growth_cons (isSeparator_of_isSpace hc) (ne_quote_of_isSpace hc), ih hgap]

/-- A string has no tokens. -/
theorem growth_quoted (h : Spells body name) (left : Text) :
    growth ('"' :: (body ++ '"' :: left)) = growth left := by
  have hquote : isSeparator '"' = true := by decide
  have hsplit : tokens ('"' :: (body ++ '"' :: left)) = [] :: [] :: tokens left := by
    rw [tokens, h.outside_quoted, List.splitOnP_cons_eq_if_modifyHead, if_pos hquote,
      List.splitOnP_cons_eq_if_modifyHead, if_pos hquote]
    rfl
  rw [growth, hsplit, List.map_cons, List.map_cons, List.sum_cons, List.sum_cons, growthOf_nil,
    zero_add, zero_add]
  rfl

/-- A token that ends counts for itself. -/
theorem growth_token (htoken : IsToken token) (hleft : EndsToken left) :
    growth (token ++ left) = growthOf token + growth left := by
  have hquote : '"' ∉ token := by
    intro hmem
    have hseparator := htoken.2 '"' hmem
    cases hseparator
  have houtside := outsideStrings_append hquote left
  have hone : token.splitOnP isSeparator = [token] := List.splitOnP_eq_singleton htoken.2
  cases left with
  | nil =>
    have hsplit : tokens (token ++ []) = [token] := by
      rw [tokens, houtside, outsideStrings, List.append_nil, hone]
    rw [growth, hsplit, List.map_singleton, List.sum_singleton]
    exact (add_zero _).symm
  | cons c left =>
    have hc : isSeparator c = true := hleft c rfl
    have hsplit : tokens (token ++ c :: left) =
        token :: (outsideStrings (c = '"') left).splitOnP isSeparator := by
      rw [tokens, houtside, outsideStrings, List.splitOnP_append_cons _ _ hc, hone,
        List.singleton_append]
    have hrest : tokens (c :: left) =
        [] :: (outsideStrings (c = '"') left).splitOnP isSeparator := by
      rw [tokens, outsideStrings, List.splitOnP_cons_eq_if_modifyHead, if_pos hc]
    rw [growth, growth, hsplit, hrest, List.map_cons, List.map_cons, List.sum_cons, List.sum_cons,
      growthOf_nil, zero_add]

/-- A separator that is no quote gives room for itself. -/
theorem room_cons (hc : isSeparator c = true) (hquote : c ≠ '"') (text : Text) :
    room (c :: text) = 1 + room text := by
  rw [room, room, growth_cons hc hquote, List.length_cons]
  omega

/-- A gap takes no room away. -/
theorem room_gap (hgap : IsGap gap) (text : Text) : room text ≤ room (gap ++ text) := by
  rw [room, room, growth_gap hgap, List.length_append]
  omega

/-- A string gives room for its quotes and what stands between them. -/
theorem room_quoted (h : Spells body name) (left : Text) :
    room ('"' :: (body ++ '"' :: left)) = body.length + 2 + room left := by
  rw [room, room, growth_quoted h, List.length_cons, List.length_append, List.length_cons]
  omega

/-- A token gives room for itself and what it grows by. -/
theorem room_token (htoken : IsToken token) (hleft : EndsToken left) :
    room (token ++ left) = token.length + growthOf token + room left := by
  rw [room, room, growth_token htoken hleft, List.length_append]
  omega

/-- A gap before a sign gives room for the sign. -/
theorem room_sign (hgap : IsGap gap) (hc : isSeparator c = true) (hquote : c ≠ '"') (text : Text) :
    1 + room text ≤ room (gap ++ c :: text) := by
  have hroom := room_gap hgap (c :: text)
  rwa [room_cons hc hquote] at hroom

end Room

section Written

/-- The length of items, each with the sign after it. -/
def itemsLength (level : Nat) (items : List Json) : Nat :=
  (items.map fun item => (write .compact level item).length + 1).sum

/-- The length of members, each with its colon and the sign after it. -/
def membersLength (level : Nat) (members : List (Text × Json)) : Nat :=
  (members.map fun member =>
    (writtenString false member.1).length + (write .compact level member.2).length + 2).sum

/-- The room that a phrase takes; members take what is added to those before them. -/
def Phrase.length (level : Nat) : Phrase → Int
  | .value json => (write .compact level json).length
  | .member name json =>
    (writtenString false name).length + 1 + (write .compact level json).length
  | .items list => itemsLength level list
  | .members before after => membersLength level after - membersLength level before

/-- Whether a phrase of items or members has at least one. -/
def Phrase.IsFilled : Phrase → Prop
  | .value _ => True
  | .member _ _ => True
  | .items list => list ≠ []
  | .members _ after => after ≠ []

variable {limit : Option Nat} {phrase : Phrase} {text : Text}

/-- One more item. -/
theorem itemsLength_cons (level : Nat) (item : Json) (items : List Json) :
    itemsLength level (item :: items) =
      (write .compact level item).length + 1 + itemsLength level items := by
  rw [itemsLength, itemsLength, List.map_cons, List.sum_cons]

/-- One more member. -/
theorem membersLength_cons (level : Nat) (name : Text) (value : Json)
    (members : List (Text × Json)) :
    membersLength level ((name, value) :: members) =
      (writtenString false name).length + (write .compact level value).length + 2 +
        membersLength level members := by
  rw [membersLength, membersLength, List.map_cons, List.sum_cons]

/-- The items after the first take their lengths and a bracket. -/
theorem length_writeItems (level : Nat) (items : List Json) :
    (writeItems .compact level items).length = itemsLength (level + 1) items + 1 := by
  induction items with
  | nil => rfl
  | cons item items ih =>
    have hseparator : (Layout.compact.itemSeparator ++ Layout.compact.newline (level + 1)).length =
        1 :=
      rfl
    rw [writeItems, List.length_append, List.length_append, hseparator, ih, itemsLength_cons]
    omega

/-- The members after the first take their lengths and a brace. -/
theorem length_writeMembers (level : Nat) (members : List (Text × Json)) :
    (writeMembers .compact level members).length = membersLength (level + 1) members + 1 := by
  induction members with
  | nil => rfl
  | cons member members ih =>
    obtain ⟨name, value⟩ := member
    have hseparator : (Layout.compact.itemSeparator ++ Layout.compact.newline (level + 1)).length =
        1 :=
      rfl
    have hcolon : Layout.compact.nameSeparator.length = 1 := rfl
    have hascii : Layout.compact.asciiOnly = false := rfl
    rw [writeMembers, List.length_append, List.length_append, List.length_append,
      List.length_append, hseparator, hcolon, hascii, ih, membersLength_cons]
    omega

/-- An array takes the lengths of its items and a bracket. -/
theorem length_write_array (level : Nat) {items : List Json} (h : items ≠ []) :
    (write .compact level (.array items)).length = itemsLength (level + 1) items + 1 := by
  obtain ⟨item, items, rfl⟩ := List.exists_cons_of_ne_nil h
  have hopening : ('[' :: Layout.compact.newline (level + 1)).length = 1 := rfl
  rw [write, List.length_append, List.length_append, hopening, length_writeItems, itemsLength_cons]
  omega

/-- An object takes the lengths of its members and a brace. -/
theorem length_write_object (level : Nat) {members : List (Text × Json)} (h : members ≠ []) :
    (write .compact level (.object members)).length = membersLength (level + 1) members + 1 := by
  obtain ⟨⟨name, value⟩, members, rfl⟩ := List.exists_cons_of_ne_nil h
  have hopening : ('\x7b' :: Layout.compact.newline (level + 1)).length = 1 := rfl
  have hcolon : Layout.compact.nameSeparator.length = 1 := rfl
  have hascii : Layout.compact.asciiOnly = false := rfl
  rw [write, List.length_append, List.length_append, List.length_append, List.length_append,
    hopening, hcolon, hascii, length_writeMembers, membersLength_cons]
  omega

/-- Putting a member among others adds at most its own length. -/
theorem membersLength_putMember (level : Nat) (name : Text) (value : Json)
    (members : List (Text × Json)) :
    membersLength level (putMember name value members) ≤ membersLength level members +
      ((writtenString false name).length + (write .compact level value).length + 2) := by
  induction members with
  | nil => simp [putMember, membersLength]
  | cons first members ih =>
    obtain ⟨other, old⟩ := first
    rw [putMember]
    split
    · rw [membersLength_cons, membersLength_cons]
      omega
    · rw [membersLength_cons, membersLength_cons]
      omega

/-- Items and members that are derived are at least one. -/
theorem Derives.isFilled (h : Derives limit phrase text) : phrase.IsFilled := by
  induction h with
  | lastItem _ _ _ => exact List.cons_ne_nil _ _
  | nextItem _ _ _ _ _ _ => exact List.cons_ne_nil _ _
  | @lastMember name value before _ _ _ _ _ =>
    cases before with
    | nil => exact List.cons_ne_nil _ _
    | cons first before =>
      change putMember name value (first :: before) ≠ []
      rw [putMember]
      split <;> exact List.cons_ne_nil _ _
  | nextMember _ _ _ _ _ ih => exact ih
  | _ => trivial

/-- A token gives room for what is written for it. -/
theorem length_scalar_le {value : Json} {token : Text}
    (h : scalar limit token = .ok (value, [])) (level : Nat) :
    ((write .compact level value).length : Int) ≤ token.length + growthOf token := by
  have hfree := scalar_none_of_scalar h
  have hfloat {x : Decimal.Binary64} (hx : value = .float x) :
      ((write .compact level value).length : Int) ≤ token.length + growthOf token := by
    subst hx
    have hgrowth : growthOf token = (x.toText numberLayout).length - token.length := by
      rw [growthOf, hfree]
    rw [hgrowth, write]
    omega
  obtain ⟨used, hused, -, -, hvalue⟩ := scalar_cut h
  rw [List.append_nil] at hused
  rcases hvalue with ⟨x, hx⟩ | hshort
  · exact hfloat hx
  · cases value with
    | float x => exact hfloat rfl
    | _ =>
      have hgrowth : growthOf token = 0 := by rw [growthOf, hfree]
      have hlength := hshort level
      rw [← hused] at hlength
      omega

/-- An array takes the room of its items and a bracket. -/
theorem Phrase.length_array (level : Nat) {items : List Json} (h : items ≠ []) :
    (Phrase.value (.array items)).length level = 1 + (Phrase.items items).length (level + 1) := by
  have hwritten := length_write_array level h
  change ((write .compact level (.array items)).length : Int) = 1 + itemsLength (level + 1) items
  omega

/-- An object takes the room of its members and a brace. -/
theorem Phrase.length_object (level : Nat) {members : List (Text × Json)} (h : members ≠ []) :
    (Phrase.value (.object members)).length level =
      1 + (Phrase.members [] members).length (level + 1) := by
  have hwritten := length_write_object level h
  have hnone : membersLength (level + 1) [] = 0 := rfl
  change ((write .compact level (.object members)).length : Int) =
    1 + (membersLength (level + 1) members - membersLength (level + 1) [])
  omega

/-- Items take the room of the first, of the sign after it and of the others. -/
theorem Phrase.length_items_cons (level : Nat) (item : Json) (items : List Json) :
    (Phrase.items (item :: items)).length level =
      (Phrase.value item).length level + 1 + (Phrase.items items).length level := by
  change (itemsLength level (item :: items) : Int) =
    (write .compact level item).length + 1 + itemsLength level items
  rw [itemsLength_cons]
  omega

/-- A member that is put among others takes at most its own room and that of the sign after it. -/
theorem Phrase.length_put_le (level : Nat) (name : Text) (value : Json)
    (before : List (Text × Json)) :
    (Phrase.members before (putMember name value before)).length level ≤
      (Phrase.member name value).length level + 1 := by
  have hput := membersLength_putMember level name value before
  change (membersLength level (putMember name value before) : Int) - membersLength level before ≤
    (writtenString false name).length + 1 + (write .compact level value).length + 1
  omega

/-- What members take is taken one after the other. -/
theorem Phrase.length_members_trans (level : Nat) (before middle after : List (Text × Json)) :
    (Phrase.members before after).length level =
      (Phrase.members before middle).length level + (Phrase.members middle after).length level := by
  change (membersLength level after : Int) - membersLength level before =
    membersLength level middle - membersLength level before +
      (membersLength level after - membersLength level middle)
  omega

/-- A text gives room for all that is written for a phrase, whatever comes after it. -/
def Phrase.Fits (phrase : Phrase) (text : Text) : Prop :=
  ∀ level left, EndsToken left → phrase.length level + room left ≤ room (text ++ left)

namespace Phrase.Fits

variable {other : Phrase} {gap next rest left : Text} {c : Char}

/-- A phrase inside an opening sign leaves the room of the sign. -/
theorem opened (h : phrase.Fits text) (hgap : IsGap gap) (hc : isSeparator c = true)
    (hquote : c ≠ '"') (level : Nat) (hleft : EndsToken left) :
    1 + phrase.length level + room left ≤ room (c :: (gap ++ text) ++ left) := by
  have hphrase := h level left hleft
  have hskip := room_gap hgap (text ++ left)
  rw [List.cons_append, room_cons hc hquote, List.append_assoc]
  omega

/-- A phrase before a sign leaves the room of the sign. -/
theorem closed (h : phrase.Fits text) (hgap : IsGap gap) (hc : isSeparator c = true)
    (hquote : c ≠ '"') (level : Nat) (left : Text) :
    phrase.length level + 1 + room left ≤ room (text ++ (gap ++ c :: left)) := by
  have hphrase := h level _ (endsToken_gap hgap (endsToken_cons hc left))
  have hsign := room_sign hgap hc hquote left
  omega

/-- Two phrases with a comma between them leave the room of the comma. -/
theorem separated (h : phrase.Fits text) (hgap : IsGap gap) (hnext : IsGap next)
    (hrest : other.Fits rest) (level : Nat) (hleft : EndsToken left) :
    phrase.length level + 1 + other.length level + room left ≤
      room (text ++ (gap ++ ',' :: (next ++ rest)) ++ left) := by
  have hphrase := h.closed (c := ',') hgap (by decide) (by decide) level (next ++ (rest ++ left))
  have hskip := room_gap hnext (rest ++ left)
  have hother := hrest level left hleft
  have htext : text ++ (gap ++ ',' :: (next ++ rest)) ++ left =
      text ++ (gap ++ ',' :: (next ++ (rest ++ left))) := by simp
  rw [htext]
  omega

end Phrase.Fits

/-- A string leaves room for its text in quotes. -/
theorem fits_string {name body : Text} (h : Spells body name) :
    (Phrase.value (.string name)).Fits ('"' :: (body ++ ['"'])) := by
  intro level left _
  have hshort := h.length_written_le
  have hlength : (Phrase.value (.string name)).length level =
      (name.flatMap (writtenChar false)).length + 2 := by
    change ((writtenString false name).length : Int) = _
    simp [writtenString]
    omega
  have htext : '"' :: (body ++ ['"']) ++ left = '"' :: (body ++ '"' :: left) := by simp
  rw [htext, room_quoted h, hlength]
  omega

/-- A pair of brackets or braces leaves room for itself. -/
theorem fits_empty {gap : Text} {value : Json} {opening closing : Char} (hgap : IsGap gap)
    (hopening : isSeparator opening = true ∧ opening ≠ '"')
    (hclosing : isSeparator closing = true ∧ closing ≠ '"')
    (hvalue : ∀ level, (Phrase.value value).length level = 2) :
    (Phrase.value value).Fits (opening :: (gap ++ [closing])) := by
  intro level left _
  have hclose := room_sign hgap hclosing.1 hclosing.2 left
  have htext : opening :: (gap ++ [closing]) ++ left = opening :: (gap ++ closing :: left) := by simp
  rw [htext, room_cons hopening.1 hopening.2, hvalue]
  omega

/-- A member leaves room for its name, its colon and its value. -/
theorem fits_member {name body gap next : Text} {value : Json} (hname : Spells body name)
    (hgap : IsGap gap) (hnext : IsGap next) (h : (Phrase.value value).Fits text) :
    (Phrase.member name value).Fits ('"' :: (body ++ '"' :: (gap ++ ':' :: (next ++ text)))) := by
  intro level left hleft
  have hvalue := h level left hleft
  have hskip := room_gap hnext (text ++ left)
  have hcolon := room_sign (c := ':') hgap (by decide) (by decide) (next ++ (text ++ left))
  have hshort := hname.length_written_le
  have hlength : (Phrase.member name value).length level =
      (name.flatMap (writtenChar false)).length + 3 + (Phrase.value value).length level := by
    change ((writtenString false name).length : Int) + 1 + (write .compact level value).length =
      (name.flatMap (writtenChar false)).length + 3 + (write .compact level value).length
    simp [writtenString]
    omega
  have htext : '"' :: (body ++ '"' :: (gap ++ ':' :: (next ++ text))) ++ left =
      '"' :: (body ++ '"' :: (gap ++ ':' :: (next ++ (text ++ left)))) := by simp
  rw [htext, room_quoted hname, hlength]
  omega

/-- Whatever is derived from a text fits into it. -/
theorem Derives.fits (h : Derives limit phrase text) : phrase.Fits text := by
  induction h with
  | @scalar value token htoken h =>
    intro level left hleft
    have hlength := length_scalar_le h level
    rw [room_token htoken hleft]
    exact Int.add_le_add_right hlength _
  | string h => exact fits_string h
  | emptyArray hgap => exact fits_empty hgap (by decide) (by decide) fun _ => rfl
  | emptyObject hgap => exact fits_empty hgap (by decide) (by decide) fun _ => rfl
  | array hgap h ih =>
    intro level left hleft
    rw [Phrase.length_array level h.isFilled]
    exact ih.opened hgap (by decide) (by decide) (level + 1) hleft
  | object hgap h ih =>
    intro level left hleft
    rw [Phrase.length_object level h.isFilled]
    exact ih.opened hgap (by decide) (by decide) (level + 1) hleft
  | lastItem h hgap ih =>
    intro level left _
    rw [List.append_assoc, List.append_assoc]
    exact ih.closed hgap (by decide) (by decide) level left
  | nextItem _ hgap hnext _ ih ihrest =>
    intro level left hleft
    rw [Phrase.length_items_cons]
    exact ih.separated hgap hnext ihrest level hleft
  | member hname hgap hnext _ ih => exact fits_member hname hgap hnext ih
  | @lastMember name value before _ _ _ hgap ih =>
    intro level left _
    have hput := Phrase.length_put_le level name value before
    have hmember := ih.closed hgap (by decide : isSeparator '\x7d' = true) (by decide) level left
    rw [List.append_assoc, List.append_assoc]
    exact Int.le_trans (Int.add_le_add_right hput _) hmember
  | @nextMember name value before _ _ _ _ _ _ hgap hnext _ ih ihrest =>
    intro level left hleft
    have hput := Phrase.length_put_le level name value before
    have hmembers := ih.separated hgap hnext ihrest level hleft
    rw [Phrase.length_members_trans level before (putMember name value before)]
    omega

/-- A text that is read is longer by no more than its fractions grow when it is written anew. -/
theorem length_toText_le {value : Json} (h : read limit text = .ok value) :
    ((value.toText .compact).length : Int) ≤ text.length + growth text := by
  obtain ⟨gap, used, rest, rfl, hgap, hrest, hderives⟩ := derives_of_read h
  have hends : EndsToken rest := by
    have hnone : EndsToken [] := nofun
    have hgapEnds := endsToken_gap hrest hnone
    rwa [List.append_nil] at hgapEnds
  have hempty : room [] ≤ room rest := by
    have hskip := room_gap hrest []
    rwa [List.append_nil] at hskip
  have hnone : room [] = 0 := rfl
  have hvalue := hderives.fits 0 rest hends
  have hskip := room_gap hgap (used ++ rest)
  change ((write .compact 0 value).length : Int) ≤ room (gap ++ (used ++ rest))
  change ((write .compact 0 value).length : Int) + room rest ≤ room (used ++ rest) at hvalue
  omega

end Written

end SourceLoom.Json
