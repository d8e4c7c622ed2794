import SourceLoom.Proofs.Json.Spelling
import SourceLoom.Proofs.Json.Tokens
import SourceLoom.Proofs.Json.Writing

/-!
# The grammar of JSON

What the reader takes is a text of a grammar: tokens and strings, joined by the signs of arrays and
objects, with gaps of space between them. The members of an object are put into it one after the
other, so that a derivation of members leads from those read before to all of them. What holds along
every derivation holds of everything that is read; so no whole number that is read exceeds the limit
on digits, and no object has a name twice.
-/

namespace SourceLoom.Json

/-- A gap between the parts of a value. -/
def IsGap (gap : Text) : Prop := ∀ c ∈ gap, isSpace c = true

/-- What a part of a text stands for. -/
inductive Phrase where
  /-- A value. -/
  | value (value : Json)
  /-- A member of an object. -/
  | member (name : Text) (value : Json)
  /-- The items of an array, up to its closing bracket. -/
  | items (items : List Json)
  /-- The members of an object after some others, up to its closing brace. -/
  | members (before after : List (Text × Json))

/-- A phrase may be spelled by a text, with no more digits in a whole number than a limit. -/
inductive Derives (limit : Option Nat) : Phrase → Text → Prop where
  /-- A token is a value on its own. -/
  | scalar {value : Json} {token : Text} (htoken : IsToken token)
      (h : Json.scalar limit token = .ok (value, [])) : Derives limit (.value value) token
  /-- A string stands in quotes. -/
  | string {name body : Text} (h : Spells body name) :
      Derives limit (.value (.string name)) ('"' :: (body ++ ['"']))
  /-- An array without items. -/
  | emptyArray {gap : Text} (hgap : IsGap gap) :
      Derives limit (.value (.array [])) ('[' :: (gap ++ [']']))
  /-- An array with items. -/
  | array {items : List Json} {gap text : Text} (hgap : IsGap gap)
      (h : Derives limit (.items items) text) :
        Derives limit (.value (.array items)) ('[' :: (gap ++ text))
  /-- An object without members. -/
  | emptyObject {gap : Text} (hgap : IsGap gap) :
      Derives limit (.value (.object [])) ('\x7b' :: (gap ++ ['\x7d']))
  /-- An object with members. -/
  | object {members : List (Text × Json)} {gap text : Text} (hgap : IsGap gap)
      (h : Derives limit (.members [] members) text) :
      Derives limit (.value (.object members)) ('\x7b' :: (gap ++ text))
  /-- A bracket closes an array after its last item. -/
  | lastItem {item : Json} {text gap : Text} (h : Derives limit (.value item) text)
      (hgap : IsGap gap) :
      Derives limit (.items [item]) (text ++ (gap ++ [']']))
  /-- A comma separates an item from those after it. -/
  | nextItem {item : Json} {items : List Json} {text gap next rest : Text}
      (h : Derives limit (.value item) text) (hgap : IsGap gap) (hnext : IsGap next)
      (hrest : Derives limit (.items items) rest) :
      Derives limit (.items (item :: items)) (text ++ (gap ++ ',' :: (next ++ rest)))
  /-- A colon separates the name of a member from its value. -/
  | member {name body : Text} {value : Json} {gap next text : Text} (hname : Spells body name)
      (hgap : IsGap gap) (hnext : IsGap next) (h : Derives limit (.value value) text) :
      Derives limit (.member name value) ('"' :: (body ++ '"' :: (gap ++ ':' :: (next ++ text))))
  /-- A brace closes an object after its last member. -/
  | lastMember {name : Text} {value : Json} {before : List (Text × Json)} {text gap : Text}
      (h : Derives limit (.member name value) text) (hgap : IsGap gap) :
      Derives limit (.members before (putMember name value before)) (text ++ (gap ++ ['\x7d']))
  /-- A comma separates a member from those after it. -/
  | nextMember {name : Text} {value : Json} {before after : List (Text × Json)}
      {text gap next rest : Text} (h : Derives limit (.member name value) text) (hgap : IsGap gap)
      (hnext : IsGap next)
      (hrest : Derives limit (.members (putMember name value before) after) rest) :
      Derives limit (.members before after) (text ++ (gap ++ ',' :: (next ++ rest)))

section Reading

variable {limit : Option Nat} {fuel : Nat} {text left : Text} {value : Json}
  {before after : List (Text × Json)}

/-- A reading that succeeds went through its first step. -/
theorem bind_eq_ok {α β : Type} {first : Except Stop α} {next : α → Except Stop β} {result : β}
    (h : first >>= next = .ok result) : ∃ found, first = .ok found ∧ next found = .ok result := by
  cases first with
  | error stop => cases h
  | ok found => exact ⟨found, rfl, h⟩

/-- What is passed over before a text goes on is a gap. -/
theorem exists_gap (text : Text) : ∃ gap, IsGap gap ∧ text = gap ++ skipSpace text :=
  ⟨text.takeWhile isSpace, fun _ hc => List.mem_takeWhile_imp hc,
    (List.takeWhile_append_dropWhile).symm⟩

/-- At a depth, every value that is read is derived from what was read. -/
def ValuesDerive (limit : Option Nat) (fuel : Nat) : Prop :=
  ∀ {text left value}, valueFrom limit fuel text = .ok (value, left) →
    ∃ used, text = used ++ left ∧ Derives limit (.value value) used

/-- At a depth, all items that are read are derived from what was read. -/
def ItemsDerive (limit : Option Nat) (fuel : Nat) : Prop :=
  ∀ {text left items}, itemsFrom limit fuel text = .ok (items, left) →
    ∃ used, text = used ++ left ∧ Derives limit (.items items) used

/-- At a depth, all members that are read are derived from what was read. -/
def MembersDerive (limit : Option Nat) (fuel : Nat) : Prop :=
  ∀ {text left before after}, membersFrom limit fuel before text = .ok (after, left) →
    ∃ used, text = used ++ left ∧ Derives limit (.members before after) used

/-- A value is derived if what is read inside it is. -/
theorem valuesDerive_succ (hitems : ItemsDerive limit fuel) (hmembers : MembersDerive limit fuel) :
    ValuesDerive limit (fuel + 1) := by
  intro text left value h
  have hscalar (h : Json.scalar limit text = .ok (value, left)) :
      ∃ used, text = used ++ left ∧ Derives limit (.value value) used := by
    obtain ⟨token, htext, htoken, halone, -⟩ := scalar_cut h
    exact ⟨token, htext, .scalar htoken halone⟩
  unfold valueFrom at h
  split at h
  · obtain ⟨⟨name, rest⟩, hname, hvalue⟩ := bind_eq_ok h
    cases hvalue
    obtain ⟨body, rfl, hbody⟩ := spells_of_quotedString hname
    exact ⟨'"' :: (body ++ ['"']), by simp, .string hbody⟩
  · rename_i text
    obtain ⟨gap, hgap, htext⟩ := exists_gap text
    split at h
    · rename_i rest hrest
      cases h
      rw [hrest] at htext
      exact ⟨'[' :: (gap ++ [']']), by simp [htext], .emptyArray hgap⟩
    · obtain ⟨⟨items, rest⟩, hread, hvalue⟩ := bind_eq_ok h
      cases hvalue
      obtain ⟨used, hused, hderives⟩ := hitems hread
      rw [hused] at htext
      exact ⟨'[' :: (gap ++ used), by simp [htext], .array hgap hderives⟩
  · rename_i text
    obtain ⟨gap, hgap, htext⟩ := exists_gap text
    split at h
    · rename_i rest hrest
      cases h
      rw [hrest] at htext
      exact ⟨'\x7b' :: (gap ++ ['\x7d']), by simp [htext], .emptyObject hgap⟩
    · obtain ⟨⟨members, rest⟩, hread, hvalue⟩ := bind_eq_ok h
      cases hvalue
      obtain ⟨used, hused, hderives⟩ := hmembers hread
      rw [hused] at htext
      exact ⟨'\x7b' :: (gap ++ used), by simp [htext], .object hgap hderives⟩
  · exact hscalar h

/-- Items are derived if the first value and the items after it are. -/
theorem itemsDerive_succ (hvalues : ValuesDerive limit fuel) (hitems : ItemsDerive limit fuel) :
    ItemsDerive limit (fuel + 1) := by
  intro text left items h
  rw [itemsFrom] at h
  obtain ⟨⟨item, middle⟩, hitem, hmore⟩ := bind_eq_ok h
  obtain ⟨used, rfl, hderives⟩ := hvalues hitem
  obtain ⟨gap, hgap, hmiddle⟩ := exists_gap middle
  dsimp only at hmore
  split at hmore
  · rename_i rest hrest
    cases hmore
    rw [hrest] at hmiddle
    exact ⟨used ++ (gap ++ [']']), by simp [hmiddle], .lastItem hderives hgap⟩
  · rename_i rest hrest
    obtain ⟨⟨others, last⟩, hothers, heq⟩ := bind_eq_ok hmore
    cases heq
    obtain ⟨next, hnext, hgo⟩ := exists_gap rest
    obtain ⟨more, hused, hmoreDerives⟩ := hitems hothers
    rw [hrest, hgo, hused] at hmiddle
    exact ⟨used ++ (gap ++ ',' :: (next ++ more)), by simp [hmiddle],
      .nextItem hderives hgap hnext hmoreDerives⟩
  · cases hmore

/-- Members are derived if the first value and the members after it are. -/
theorem membersDerive_succ (hvalues : ValuesDerive limit fuel)
    (hmembers : MembersDerive limit fuel) :
    MembersDerive limit (fuel + 1) := by
  intro text left before after h
  unfold membersFrom at h
  split at h
  · obtain ⟨⟨name, middle⟩, hname, hrest⟩ := bind_eq_ok h
    obtain ⟨body, rfl, hbody⟩ := spells_of_quotedString hname
    obtain ⟨gap, hgap, hmiddle⟩ := exists_gap middle
    dsimp only at hrest
    split at hrest
    · rename_i text hcolon
      obtain ⟨⟨value, middle⟩, hvalue, hrest⟩ := bind_eq_ok hrest
      obtain ⟨next, hnext, htext⟩ := exists_gap text
      obtain ⟨used, hused, hderives⟩ := hvalues hvalue
      rw [hcolon, htext, hused] at hmiddle
      have hmember : Derives limit (.member name value)
          ('"' :: (body ++ '"' :: (gap ++ ':' :: (next ++ used)))) :=
        .member hbody hgap hnext hderives
      obtain ⟨close, hclose, hend⟩ := exists_gap middle
      dsimp only at hrest
      split at hrest
      · rename_i rest hbrace
        cases hrest
        rw [hbrace] at hend
        refine ⟨_, ?_, .lastMember hmember hclose⟩
        simp [hmiddle, hend]
      · rename_i rest hcomma
        obtain ⟨skip, hskip, hgo⟩ := exists_gap rest
        obtain ⟨more, hmore, hmoreDerives⟩ := hmembers hrest
        rw [hcomma, hgo, hmore] at hend
        refine ⟨_, ?_, .nextMember hmember hclose hskip hmoreDerives⟩
        simp [hmiddle, hend]
      · cases hrest
    · cases hrest
  · cases h

/-- At every depth, what is read is derived. -/
theorem derives_of_reading (fuel : Nat) :
    ValuesDerive limit fuel ∧ ItemsDerive limit fuel ∧ MembersDerive limit fuel := by
  induction fuel with
  | zero => exact ⟨nofun, nofun, nofun⟩
  | succ fuel ih =>
    obtain ⟨hvalues, hitems, hmembers⟩ := ih
    exact ⟨valuesDerive_succ hitems hmembers, itemsDerive_succ hvalues hitems,
      membersDerive_succ hvalues hmembers⟩

/-- A text that is read is a derivation of its value between two gaps. -/
theorem derives_of_read (h : read limit text = .ok value) :
    ∃ gap used rest, text = gap ++ (used ++ rest) ∧ IsGap gap ∧ IsGap rest ∧
      Derives limit (.value value) used := by
  have hall : readAll limit text = .ok value := by
    unfold read at h
    cases hread : readAll limit text with
    | error stop =>
      rw [hread] at h
      cases h
    | ok found =>
      rw [hread] at h
      cases h
      rfl
  unfold readAll at hall
  split at hall
  · cases hall
  · obtain ⟨⟨found, left⟩, hvalue, hend⟩ := bind_eq_ok hall
    dsimp only at hend
    split at hend
    · rename_i hempty
      cases hend
      obtain ⟨gap, hgap, htext⟩ := exists_gap text
      obtain ⟨rest, hrest, hleft⟩ := exists_gap left
      rw [hempty, List.append_nil] at hleft
      obtain ⟨used, hused, hderives⟩ := (derives_of_reading _).1 hvalue
      rw [hused, hleft] at htext
      exact ⟨gap, used, rest, htext, hgap, hrest, hderives⟩
    · cases hend

end Reading

section Readable

/-- A value as it is read: no whole number exceeds the limit on digits, and no object has a name
twice. -/
inductive IsReadable (limit : Option Nat) : Json → Prop where
  /-- Nothing. -/
  | null : IsReadable limit .null
  /-- A truth value. -/
  | bool (value : Bool) : IsReadable limit (.bool value)
  /-- A whole number that is not too long. -/
  | int {value : Int} (h : exceeds limit (Text.ofNat value.natAbs).length = false) :
      IsReadable limit (.int value)
  /-- Any other number. -/
  | float (value : Decimal.Binary64) : IsReadable limit (.float value)
  /-- A text. -/
  | string (text : Text) : IsReadable limit (.string text)
  /-- Readable items. -/
  | array {items : List Json} (h : ∀ item ∈ items, IsReadable limit item) :
      IsReadable limit (.array items)
  /-- Readable members with different names. -/
  | object {members : List (Text × Json)} (hnames : (members.map (·.1)).Nodup)
      (h : ∀ member ∈ members, IsReadable limit member.2) : IsReadable limit (.object members)

variable {limit : Option Nat} {text : Text} {name : Text} {value : Json}
  {members : List (Text × Json)}

/-- A readable value without fractions is exact. -/
theorem IsWhole.isExact (hwhole : IsWhole value) (hreadable : IsReadable limit value) :
    IsExact limit value := by
  induction hwhole with
  | null => exact .null
  | bool value => exact .bool value
  | int value =>
    cases hreadable with
    | int hlimit => exact .int hlimit
  | string text => exact .string text
  | array _ ih =>
    cases hreadable with
    | array hitems => exact .array fun item hitem => ih item hitem (hitems item hitem)
  | object _ ih =>
    cases hreadable with
    | object hnames hmembers =>
      exact .object hnames fun member hmember => ih member hmember (hmembers member hmember)

/-- A member that is put among others is one of them, and no other member is new. -/
theorem mem_putMember {member : Text × Json} (h : member ∈ putMember name value members) :
    member = (name, value) ∨ member ∈ members := by
  induction members with
  | nil => exact Or.inl (List.mem_singleton.mp h)
  | cons first members ih =>
    obtain ⟨other, old⟩ := first
    rw [putMember] at h
    split at h
    · rcases List.mem_cons.mp h with h | h
      · exact Or.inl h
      · exact Or.inr (List.mem_cons_of_mem _ h)
    · rcases List.mem_cons.mp h with h | h
      · exact Or.inr (h ▸ List.mem_cons_self)
      · exact (ih h).imp_right (List.mem_cons_of_mem _)

/-- Different names stay different when a member is put among them. -/
theorem nodup_putMember (h : (members.map (·.1)).Nodup) :
    ((putMember name value members).map (·.1)).Nodup := by
  induction members with
  | nil => exact List.nodup_singleton name
  | cons first members ih =>
    obtain ⟨other, old⟩ := first
    obtain ⟨hother, hmembers⟩ := List.nodup_cons.mp h
    rw [putMember]
    split
    · rename_i heq
      rw [← heq]
      exact h
    · rename_i hne
      refine List.nodup_cons.mpr ⟨fun hmem => ?_, ih hmembers⟩
      obtain ⟨member, hmember, hname⟩ := List.mem_map.mp hmem
      rcases mem_putMember hmember with rfl | hmember
      · exact hne hname.symm
      · exact hother (List.mem_map.mpr ⟨member, hmember, hname⟩)

/-- A word or a number is readable, a whole number as it has no more digits than were read. -/
theorem isReadable_scalar {left : Text} (h : Json.scalar limit text = .ok (value, left)) :
    IsReadable limit value := by
  have hword : ∀ word ∈ words, IsReadable limit word.2 := by
    simp only [words, List.forall_mem_cons]
    exact ⟨.null, .bool true, .bool false, .float _, .float _, .float _, List.forall_mem_nil _⟩
  have hnumber {negative : Bool} {digits : Text} {found : Json × Text}
      (h : number? negative digits = some found)
      (hlimit : withinLimit limit digits found = .ok (value, left)) : IsReadable limit value := by
    obtain ⟨rfl, hcounts⟩ := withinLimit_eq_ok hlimit
    obtain ⟨c, more, htext, -, -, -, hvalue⟩ := number?_cut h
    rcases hvalue with ⟨x, rfl⟩ | ⟨rfl, hdigits⟩
    · exact .float x
    · have hcount := hcounts _ rfl
      rw [htext, List.length_append, Nat.add_sub_cancel] at hcount
      have hshort := length_ofNat_le (List.cons_ne_nil c more) hdigits
      refine .int (exceeds_mono ?_ hcount)
      cases negative with
      | true => simpa using hshort
      | false => simpa using hshort
  unfold Json.scalar at h
  split at h
  · rename_i found hfound
    cases h
    obtain ⟨⟨word, meaning⟩, hmem, hdrop⟩ := List.exists_of_findSome?_eq_some hfound
    obtain ⟨rest, -, heq⟩ := Option.map_eq_some_iff.mp hdrop
    cases heq
    exact hword _ hmem
  · dsimp only at h
    split at h
    · rename_i found hfound
      exact hnumber hfound h
    · cases h

/-- A phrase of readable values; members are readable if those before them are. -/
def Phrase.IsReadable (limit : Option Nat) : Phrase → Prop
  | .value json => json.IsReadable limit
  | .member _ json => json.IsReadable limit
  | .items list => ∀ item ∈ list, item.IsReadable limit
  | .members before after =>
    (Json.object before).IsReadable limit → (Json.object after).IsReadable limit

/-- A readable member is put among others. -/
theorem IsReadable.put (hvalue : IsReadable limit value) (h : IsReadable limit (.object members)) :
    IsReadable limit (.object (putMember name value members)) := by
  cases h with
  | object hnames hmembers =>
    refine .object (nodup_putMember hnames) fun member hmember => ?_
    rcases mem_putMember hmember with rfl | hmember
    · exact hvalue
    · exact hmembers member hmember

/-- Whatever is derived is readable. -/
theorem Derives.isReadable {phrase : Phrase} (h : Derives limit phrase text) :
    phrase.IsReadable limit := by
  induction h with
  | scalar _ h => exact isReadable_scalar h
  | @string name _ _ => exact IsReadable.string name
  | emptyArray _ => exact IsReadable.array (List.forall_mem_nil _)
  | array _ _ ih => exact IsReadable.array ih
  | emptyObject _ => exact IsReadable.object List.nodup_nil (List.forall_mem_nil _)
  | object _ _ ih => exact ih (IsReadable.object List.nodup_nil (List.forall_mem_nil _))
  | lastItem _ _ ih => exact List.forall_mem_cons.mpr ⟨ih, List.forall_mem_nil _⟩
  | nextItem _ _ _ _ ih ihrest => exact List.forall_mem_cons.mpr ⟨ih, ihrest⟩
  | member _ _ _ _ ih => exact ih
  | lastMember _ _ ih => exact fun hbefore => IsReadable.put ih hbefore
  | nextMember _ _ _ _ ih ihrest => exact fun hbefore => ihrest (IsReadable.put ih hbefore)

/-- In a value that is read, no whole number exceeds the limit and no object has a name twice. -/
theorem isReadable_of_read (h : read limit text = .ok value) : IsReadable limit value := by
  obtain ⟨_, _, _, _, _, _, hderives⟩ := derives_of_read h
  exact hderives.isReadable

end Readable

end SourceLoom.Json
