import Mathlib.Data.List.Nodup
import SourceLoom.Proofs.Json.Numbers
import SourceLoom.Proofs.Json.Strings

/-!
# Reading what was written

A value without fractions, whose objects have no name twice and whose whole numbers keep to a limit
on digits, is read again from the text that is written for it under the same limit, in every layout
that adds nothing but space. A whole number ends where the text
goes on with none of the signs that may continue a number, and in a written value it always does.
The reader goes at most two levels deeper with each character, which bounds its depth.
-/

namespace SourceLoom.Json

/-- A value without fractions in which no whole number exceeds a limit on digits and no object has a
name twice. -/
inductive IsExact (limit : Option Nat) : Json → Prop where
  /-- Nothing. -/
  | null : IsExact limit .null
  /-- A truth value. -/
  | bool (value : Bool) : IsExact limit (.bool value)
  /-- A whole number that is not too long. -/
  | int {value : Int} (h : exceeds limit (Text.ofNat value.natAbs).length = false) :
      IsExact limit (.int value)
  /-- A text. -/
  | string (text : Text) : IsExact limit (.string text)
  /-- Exact items. -/
  | array {items : List Json} (h : ∀ item ∈ items, IsExact limit item) :
      IsExact limit (.array items)
  /-- Exact members with different names. -/
  | object {members : List (Text × Json)} (hnames : (members.map (·.1)).Nodup)
      (h : ∀ member ∈ members, IsExact limit member.2) : IsExact limit (.object members)

/-- A layout that adds nothing but space to the signs between items. -/
structure Layout.IsSpaced (layout : Layout) : Prop where
  /-- A comma stands between items. -/
  itemSeparator : ∃ gap, layout.itemSeparator = ',' :: gap ∧ ∀ c ∈ gap, isSpace c = true
  /-- A colon stands between a name and its value. -/
  nameSeparator : ∃ gap, layout.nameSeparator = ':' :: gap ∧ ∀ c ∈ gap, isSpace c = true
  /-- Lines are indented by space. -/
  newline : ∀ level, ∀ c ∈ layout.newline level, isSpace c = true

/-- The compact layout adds nothing. -/
theorem Layout.isSpaced_compact : Layout.compact.IsSpaced :=
  ⟨⟨[], rfl, nofun⟩, ⟨[], rfl, nofun⟩, nofun⟩

/-- The layout on one line adds single spaces. -/
theorem Layout.isSpaced_line : Layout.line.IsSpaced :=
  ⟨⟨[' '], rfl, by decide⟩, ⟨[' '], rfl, by decide⟩, nofun⟩

/-- The layout in lines adds line feeds and spaces. -/
theorem Layout.isSpaced_indented (spaces : Int) : (Layout.indented spaces).IsSpaced := by
  refine ⟨⟨[], rfl, nofun⟩, ⟨[' '], rfl, by decide⟩, fun level c hc => ?_⟩
  have hnewline : (Layout.indented spaces).newline level =
      '\n' :: (List.replicate level (List.replicate spaces.toNat ' ')).flatten := rfl
  rw [hnewline, List.mem_cons, List.mem_flatten] at hc
  rcases hc with rfl | ⟨unit, hunit, hc⟩
  · decide
  · rw [List.eq_of_mem_replicate hunit] at hc
    rw [List.eq_of_mem_replicate hc]
    decide

/-- Space before a text is passed over. -/
theorem skipSpace_append {gap : Text} (h : ∀ c ∈ gap, isSpace c = true) (text : Text) :
    skipSpace (gap ++ text) = skipSpace text :=
  List.dropWhile_append_of_pos h

/-- A text that does not begin with space is left as it is. -/
theorem skipSpace_cons {c : Char} (h : isSpace c = false) (text : Text) :
    skipSpace (c :: text) = c :: text :=
  List.dropWhile_cons_of_neg (by simp [h])

/-- A member with a new name comes last. -/
theorem putMember_of_not_mem {name : Text} {members : List (Text × Json)}
    (h : name ∉ members.map (·.1)) (value : Json) :
    putMember name value members = members ++ [(name, value)] := by
  induction members with
  | nil => rfl
  | cons member members ih =>
    obtain ⟨other, old⟩ := member
    rw [List.map_cons, List.mem_cons, not_or] at h
    rw [putMember, if_neg (Ne.symm h.1), ih h.2, List.cons_append]

/-- Among different names, a later one is new. -/
theorem putMember_of_nodup {name : Text} {value : Json} {before after : List (Text × Json)}
    (h : ((before ++ (name, value) :: after).map (·.1)).Nodup) :
    putMember name value before = before ++ [(name, value)] := by
  refine putMember_of_not_mem (fun hmem => ?_) value
  rw [List.map_append] at h
  exact (List.nodup_append.mp h).2.2 name hmem name List.mem_cons_self rfl

section Steps

variable {limit : Option Nat} {fuel : Nat} {text left next after rest : Text}
  {value item : Json} {items : List Json}
  {name : Text} {members found : List (Text × Json)}

/-- What begins with none of the signs of a string, an array or an object is a word or a number. -/
theorem valueFrom_scalar {c : Char} (h : c ≠ '"' ∧ c ≠ '[' ∧ c ≠ '{') :
    valueFrom limit (fuel + 1) (c :: text) = scalar limit (c :: text) := by
  obtain ⟨hquote, harray, hobject⟩ := h
  rw [valueFrom]
  · exact fun text heq => hquote (List.cons.inj heq).1
  · exact fun text heq => harray (List.cons.inj heq).1
  · exact fun text heq => hobject (List.cons.inj heq).1

/-- A value that is a string. -/
theorem valueFrom_string (h : quotedString ('"' :: text) = .ok (name, rest)) :
    valueFrom limit (fuel + 1) ('"' :: text) = .ok (.string name, rest) := by
  rw [valueFrom, h]
  rfl

/-- An array with items. -/
theorem valueFrom_array (hleft : skipSpace text = left) (hne : left.head? ≠ some ']')
    (h : itemsFrom limit fuel left = .ok (items, rest)) :
    valueFrom limit (fuel + 1) ('[' :: text) = .ok (.array items, rest) := by
  rw [valueFrom, hleft]
  split
  · exact absurd rfl hne
  · rw [h]
    rfl

/-- An object with members. -/
theorem valueFrom_object (hleft : skipSpace text = left) (hne : left.head? ≠ some '}')
    (h : membersFrom limit fuel [] left = .ok (members, rest)) :
    valueFrom limit (fuel + 1) ('{' :: text) = .ok (.object members, rest) := by
  rw [valueFrom, hleft]
  split
  · exact absurd rfl hne
  · rw [h]
    rfl

/-- The last item of an array. -/
theorem itemsFrom_last (hitem : valueFrom limit fuel text = .ok (item, left))
    (hleft : skipSpace left = ']' :: rest) :
    itemsFrom limit (fuel + 1) text = .ok ([item], rest) := by
  rw [itemsFrom, hitem]
  dsimp only [bind, Except.bind]
  rw [hleft]
  rfl

/-- An item of an array with items after it. -/
theorem itemsFrom_more (hitem : valueFrom limit fuel text = .ok (item, left))
    (hleft : skipSpace left = ',' :: next)
    (h : itemsFrom limit fuel (skipSpace next) = .ok (items, rest)) :
    itemsFrom limit (fuel + 1) text = .ok (item :: items, rest) := by
  rw [itemsFrom, hitem]
  dsimp only [bind, Except.bind]
  rw [hleft]
  change (itemsFrom limit fuel (skipSpace next)).bind (fun more => pure (item :: more.1, more.2)) = _
  rw [h]
  rfl

/-- A member of an object is read before what follows its value. -/
theorem membersFrom_member (hname : quotedString ('"' :: text) = .ok (name, left))
    (hleft : skipSpace left = ':' :: next)
    (hvalue : valueFrom limit fuel (skipSpace next) = .ok (value, after)) :
    membersFrom limit (fuel + 1) members ('"' :: text) =
      match skipSpace after with
      | '}' :: rest => .ok (putMember name value members, rest)
      | ',' :: rest => membersFrom limit fuel (putMember name value members) (skipSpace rest)
      | rest => .error ⟨.noComma, rest.length⟩ := by
  rw [membersFrom, hname]
  dsimp only [bind, Except.bind]
  rw [hleft]
  change (valueFrom limit fuel (skipSpace next)).bind _ = _
  rw [hvalue]
  rfl

end Steps

/-- A character that can begin a value: no space, no closing bracket and no byte order mark. -/
def IsOpening (c : Char) : Prop := isSpace c = false ∧ c ≠ ']' ∧ c ≠ '\uFEFF'

instance (c : Char) : Decidable (IsOpening c) := inferInstanceAs (Decidable (_ ∧ _))

/-- A value whose text is read as the value, at every level and whatever follows that does not
continue a number. -/
structure IsRead (limit : Option Nat) (layout : Layout) (value : Json) : Prop where
  /-- Nothing comes before the value. -/
  begins : ∀ level, ∃ c text, write layout level value = c :: text ∧ IsOpening c
  /-- The text is read as the value. -/
  reads : ∀ level fuel rest, 2 * (write layout level value).length ≤ fuel → EndsNumber rest →
    valueFrom limit fuel (write layout level value ++ rest) = .ok (value, rest)

section Written

variable {limit : Option Nat} {layout : Layout}

/-- A sign that does not continue a number ends it. -/
theorem endsNumber_cons {c : Char} (h : isNumberDigit c = false ∧ c ≠ '.' ∧ c ≠ 'e' ∧ c ≠ 'E')
    (rest : Text) : EndsNumber (c :: rest) := by
  intro other hother
  cases hother
  exact h

/-- A value stands as it is after space. -/
theorem IsRead.skipSpace_write {value : Json} (h : IsRead limit layout value) (level : Nat)
    (rest : Text) :
    skipSpace (write layout level value ++ rest) = write layout level value ++ rest := by
  obtain ⟨c, text, htext, hc⟩ := h.begins level
  rw [htext]
  exact skipSpace_cons hc.1 _

/-- The space before a closing sign ends a number and is passed over. -/
theorem closing_spec (hlayout : layout.IsSpaced) (level : Nat) {c : Char}
    (hc : c = ']' ∨ c = '}') (rest : Text) :
    EndsNumber (layout.newline level ++ c :: rest) ∧
      skipSpace (layout.newline level ++ c :: rest) = c :: rest := by
  have hsign : isSpace c = false ∧ isNumberDigit c = false ∧ c ≠ '.' ∧ c ≠ 'e' ∧ c ≠ 'E' := by
    rcases hc with rfl | rfl <;> decide
  refine ⟨endsNumber_append (hlayout.newline level) (endsNumber_cons hsign.2 rest), ?_⟩
  rw [skipSpace_append (hlayout.newline level)]
  exact skipSpace_cons hsign.1 rest

/-- Items are read up to the closing bracket. -/
theorem itemsFrom_write (hlayout : layout.IsSpaced) {items : List Json}
    (hitems : ∀ item ∈ items, IsRead limit layout item)
    {item : Json} (hitem : IsRead limit layout item)
    (level fuel : Nat) (rest : Text)
    (hfuel : 2 * ((write layout (level + 1) item).length +
      (writeItems layout level items).length) ≤ fuel) :
    itemsFrom limit fuel (write layout (level + 1) item ++
      (writeItems layout level items ++ rest)) =
      .ok (item :: items, rest) := by
  -- an item takes one level and has at least one sign after it, so twice the length stays enough
  induction items generalizing item fuel with
  | nil =>
    have hclosing : writeItems layout level [] ++ rest = layout.newline level ++ ']' :: rest := by
      simp [writeItems]
    cases fuel with
    | zero => simp [writeItems] at hfuel
    | succ fuel =>
      obtain ⟨hends, hskip⟩ := closing_spec hlayout level (c := ']') (by decide) rest
      rw [hclosing]
      simp only [writeItems, List.length_append, List.length_singleton] at hfuel
      exact itemsFrom_last (hitem.reads _ _ _ (by omega) hends) hskip
  | cons next items ih =>
    obtain ⟨hnext, hitems⟩ := List.forall_mem_cons.mp hitems
    obtain ⟨gap, hgap, hspace⟩ := hlayout.itemSeparator
    have hmore : writeItems layout level (next :: items) ++ rest =
        ',' :: (gap ++ (layout.newline (level + 1) ++
          (write layout (level + 1) next ++ (writeItems layout level items ++ rest)))) := by
      simp [writeItems, hgap]
    cases fuel with
    | zero => simp [writeItems, hgap] at hfuel
    | succ fuel =>
      have hskip : skipSpace (gap ++ (layout.newline (level + 1) ++
          (write layout (level + 1) next ++ (writeItems layout level items ++ rest)))) =
            write layout (level + 1) next ++ (writeItems layout level items ++ rest) := by
        rw [skipSpace_append hspace, skipSpace_append (hlayout.newline _)]
        exact hnext.skipSpace_write _ _
      rw [hmore]
      simp only [writeItems, hgap, List.length_append, List.length_cons] at hfuel
      refine itemsFrom_more (hitem.reads _ _ _ (by omega) (endsNumber_cons (by decide) _))
        (skipSpace_cons (by decide) _) ?_
      rw [hskip]
      exact ih hitems hnext fuel (by omega)

/-- A written member is read, whatever comes after it. -/
theorem membersFrom_writeMember (hlayout : layout.IsSpaced) {value : Json}
    (hvalue : IsRead limit layout value) (name : Text) (before : List (Text × Json))
    {level fuel : Nat} (hfuel : 2 * (write layout level value).length ≤ fuel) {after : Text}
    (hafter : EndsNumber after) :
    membersFrom limit (fuel + 1) before (writtenString layout.asciiOnly name ++
        (layout.nameSeparator ++ (write layout level value ++ after))) =
      match skipSpace after with
      | '}' :: rest => .ok (putMember name value before, rest)
      | ',' :: rest => membersFrom limit fuel (putMember name value before) (skipSpace rest)
      | rest => .error ⟨.noComma, rest.length⟩ := by
  obtain ⟨gap, hgap, hspace⟩ := hlayout.nameSeparator
  have hskip : skipSpace (gap ++ (write layout level value ++ after)) =
      write layout level value ++ after := by
    rw [skipSpace_append hspace]
    exact hvalue.skipSpace_write _ _
  have hread := hvalue.reads level fuel after hfuel hafter
  rw [← hskip] at hread
  rw [hgap]
  exact membersFrom_member (quotedString_written _ name _) (skipSpace_cons (by decide) _) hread

/-- Members with different names are read up to the closing brace. -/
theorem membersFrom_write (hlayout : layout.IsSpaced) {members : List (Text × Json)}
    (hmembers : ∀ member ∈ members, IsRead limit layout member.2) (before : List (Text × Json))
    {name : Text} {value : Json} (hvalue : IsRead limit layout value)
    (hnames : ((before ++ (name, value) :: members).map (·.1)).Nodup) (level fuel : Nat)
    (rest : Text)
    (hfuel : 2 * ((write layout (level + 1) value).length +
      (writeMembers layout level members).length) ≤ fuel) :
    membersFrom limit fuel before (writtenString layout.asciiOnly name ++ (layout.nameSeparator ++
        (write layout (level + 1) value ++ (writeMembers layout level members ++ rest)))) =
      .ok (before ++ (name, value) :: members, rest) := by
  induction members generalizing before name value fuel with
  | nil =>
    have hclosing : writeMembers layout level [] ++ rest =
        layout.newline level ++ '}' :: rest := by simp [writeMembers]
    cases fuel with
    | zero => simp [writeMembers] at hfuel
    | succ fuel =>
      obtain ⟨hends, hskip⟩ := closing_spec hlayout level (c := '}') (by decide) rest
      simp only [writeMembers, List.length_append, List.length_singleton] at hfuel
      rw [hclosing, membersFrom_writeMember hlayout hvalue name before (by omega) hends, hskip,
        putMember_of_nodup hnames]
      rfl
  | cons next members ih =>
    obtain ⟨nextName, nextValue⟩ := next
    obtain ⟨hnext, hmembers⟩ := List.forall_mem_cons.mp hmembers
    change IsRead limit layout nextValue at hnext
    obtain ⟨gap, hgap, hspace⟩ := hlayout.itemSeparator
    generalize hlater : writtenString layout.asciiOnly nextName ++ (layout.nameSeparator ++
      (write layout (level + 1) nextValue ++ (writeMembers layout level members ++ rest))) = later
    have hmore : writeMembers layout level ((nextName, nextValue) :: members) ++ rest =
        ',' :: (gap ++ (layout.newline (level + 1) ++ later)) := by
      simp [writeMembers, hgap, ← hlater]
    cases fuel with
    | zero => simp [writeMembers, hgap] at hfuel
    | succ fuel =>
      have hskip : skipSpace (gap ++ (layout.newline (level + 1) ++ later)) = later := by
        rw [skipSpace_append hspace, skipSpace_append (hlayout.newline _), ← hlater]
        exact skipSpace_cons (by decide) _
      have hassoc : before ++ (name, value) :: (nextName, nextValue) :: members =
          (before ++ [(name, value)]) ++ (nextName, nextValue) :: members := by simp
      simp only [writeMembers, hgap, List.length_append, List.length_cons] at hfuel
      rw [hmore, membersFrom_writeMember hlayout hvalue name before (by omega)
        (endsNumber_cons (by decide) _), skipSpace_cons (by decide)]
      change membersFrom limit fuel _ (skipSpace (gap ++ (layout.newline (level + 1) ++ later))) = _
      rw [hskip, putMember_of_nodup hnames, ← hlater, hassoc]
      rw [hassoc] at hnames
      exact ih hmembers _ hnext hnames fuel (by omega)

/-- No value is read at depth zero, and none has to be. -/
theorem IsRead.of_succ {value : Json}
    (begins : ∀ level, ∃ c text, write layout level value = c :: text ∧ IsOpening c)
    (reads : ∀ level fuel rest, 2 * (write layout level value).length ≤ fuel + 1 →
      EndsNumber rest → valueFrom limit (fuel + 1) (write layout level value ++ rest) =
        .ok (value, rest)) : IsRead limit layout value := by
  refine ⟨begins, fun level fuel rest hfuel hrest => ?_⟩
  cases fuel with
  | zero =>
    obtain ⟨c, text, htext, -⟩ := begins level
    rw [htext] at hfuel
    simp at hfuel
  | succ fuel => exact reads level fuel rest hfuel hrest

/-- A whole number that is not too long is read again. -/
theorem isRead_int (layout : Layout) {n : Int}
    (hlimit : exceeds limit (Text.ofNat n.natAbs).length = false) :
    IsRead limit layout (.int n) := by
  have hbegins : ∃ c text, Text.ofInt n = c :: text ∧ (isNumberDigit c = true ∨ c = '-') := by
    cases n with
    | ofNat n =>
      obtain ⟨c, text, htext, hc⟩ := exists_ofNat_eq_cons n
      exact ⟨c, text, htext, Or.inl hc⟩
    | negSucc n => exact ⟨'-', _, rfl, Or.inr rfl⟩
  obtain ⟨c, text, htext, hc⟩ := hbegins
  have hne (other : Char) (hother : isNumberDigit other = false) (hminus : other ≠ '-') :
      c ≠ other := by
    rintro rfl
    rcases hc with hc | hc
    · exact absurd hc (by simp [hother])
    · exact hminus hc
  have hspace : isSpace c = false := by
    simp [isSpace, hne ' ' (by decide) (by decide), hne '\t' (by decide) (by decide),
      hne '\n' (by decide) (by decide), hne '\r' (by decide) (by decide)]
  have hopening : IsOpening c :=
    ⟨hspace, hne _ (by decide) (by decide), hne _ (by decide) (by decide)⟩
  refine .of_succ (fun level => ⟨c, text, ?_, hopening⟩) fun level fuel rest _ hrest => ?_
  · rw [write, htext]
  · have hscalar := scalar_ofInt hrest hlimit
    rw [htext] at hscalar
    rw [write, htext, List.cons_append, valueFrom_scalar
      ⟨hne _ (by decide) (by decide), hne _ (by decide) (by decide),
        hne _ (by decide) (by decide)⟩]
    exact hscalar

/-- An array is read again if its items are. -/
theorem isRead_array (hlayout : layout.IsSpaced) {items : List Json}
    (h : ∀ item ∈ items, IsRead limit layout item) : IsRead limit layout (.array items) := by
  cases items with
  | nil =>
    exact .of_succ (fun level => ⟨'[', [']'], rfl, by decide⟩) fun _ _ _ _ _ => rfl
  | cons item items =>
    obtain ⟨hitem, hitems⟩ := List.forall_mem_cons.mp h
    refine .of_succ (fun level => ⟨'[', _, rfl, by decide⟩)
      fun level fuel rest hfuel _ => ?_
    have hread := itemsFrom_write hlayout hitems hitem level fuel rest (by
      simp only [write, List.length_append, List.length_cons] at hfuel
      omega)
    have hskip : skipSpace (layout.newline (level + 1) ++ (write layout (level + 1) item ++
        (writeItems layout level items ++ rest))) =
          write layout (level + 1) item ++ (writeItems layout level items ++ rest) := by
      rw [skipSpace_append (hlayout.newline _)]
      exact hitem.skipSpace_write _ _
    have hopen : (write layout (level + 1) item ++
        (writeItems layout level items ++ rest)).head? ≠ some ']' := by
      obtain ⟨c, text, htext, hc⟩ := hitem.begins (level + 1)
      rw [htext]
      simpa using hc.2.1
    have htext : write layout level (.array (item :: items)) ++ rest =
        '[' :: (layout.newline (level + 1) ++ (write layout (level + 1) item ++
          (writeItems layout level items ++ rest))) := by simp [write]
    rw [htext]
    exact valueFrom_array hskip hopen hread

/-- An object with different names is read again if its values are. -/
theorem isRead_object (hlayout : layout.IsSpaced) {members : List (Text × Json)}
    (hnames : (members.map (·.1)).Nodup) (h : ∀ member ∈ members, IsRead limit layout member.2) :
    IsRead limit layout (.object members) := by
  cases members with
  | nil =>
    exact .of_succ (fun level => ⟨'{', ['}'], rfl, by decide⟩) fun _ _ _ _ _ => rfl
  | cons member members =>
    obtain ⟨name, value⟩ := member
    obtain ⟨hvalue, hmembers⟩ := List.forall_mem_cons.mp h
    refine .of_succ (fun level => ⟨'{', _, rfl, by decide⟩)
      fun level fuel rest hfuel _ => ?_
    change IsRead limit layout value at hvalue
    have hread := membersFrom_write hlayout hmembers [] hvalue hnames level fuel rest (by
      simp only [write, List.length_append, List.length_cons] at hfuel
      omega)
    have hskip : skipSpace (layout.newline (level + 1) ++ (writtenString layout.asciiOnly name ++
        (layout.nameSeparator ++ (write layout (level + 1) value ++
          (writeMembers layout level members ++ rest))))) =
        writtenString layout.asciiOnly name ++ (layout.nameSeparator ++
          (write layout (level + 1) value ++ (writeMembers layout level members ++ rest))) := by
      rw [skipSpace_append (hlayout.newline _)]
      exact skipSpace_cons (by decide) _
    have htext : write layout level (.object ((name, value) :: members)) ++ rest =
        '{' :: (layout.newline (level + 1) ++ (writtenString layout.asciiOnly name ++
          (layout.nameSeparator ++ (write layout (level + 1) value ++
            (writeMembers layout level members ++ rest))))) := by simp [write]
    rw [htext]
    exact valueFrom_object hskip (by simp [writtenString]) hread

/-- A value without fractions and without repeated names is read again, in a layout that adds
nothing but space. -/
theorem IsExact.isRead (hlayout : layout.IsSpaced) {value : Json} (h : value.IsExact limit) :
    IsRead limit layout value := by
  induction h with
  | null =>
    exact .of_succ (fun level => ⟨'n', "ull".toList, rfl, by decide⟩)
      fun _ _ _ _ _ => valueFrom_scalar (by decide)
  | bool value =>
    cases value with
    | false =>
      exact .of_succ (fun level => ⟨'f', "alse".toList, rfl, by decide⟩)
        fun _ _ _ _ _ => valueFrom_scalar (by decide)
    | true =>
      exact .of_succ (fun level => ⟨'t', "rue".toList, rfl, by decide⟩)
        fun _ _ _ _ _ => valueFrom_scalar (by decide)
  | int hlimit => exact isRead_int layout hlimit
  | string text =>
    exact .of_succ (fun level => ⟨'"', _, rfl, by decide⟩)
      fun _ _ rest _ _ => valueFrom_string (quotedString_written _ text rest)
  | array _ ih => exact isRead_array hlayout ih
  | object hnames _ ih => exact isRead_object hlayout hnames ih

/-- The text of such a value is read as the value. -/
theorem read_toText (hlayout : layout.IsSpaced) {value : Json} (h : value.IsExact limit) :
    read limit (value.toText layout) = .ok value := by
  have hread := h.isRead hlayout
  obtain ⟨c, text, htext, hc⟩ := hread.begins 0
  have hmark : (value.toText layout).head? ≠ some '\uFEFF' := by
    rw [toText, htext]
    simpa using hc.2.2
  have hskip : skipSpace (value.toText layout) = value.toText layout := by
    rw [toText, htext]
    exact skipSpace_cons hc.1 text
  have hvalue : valueFrom limit (2 * (value.toText layout).length + 2) (value.toText layout) =
      .ok (value, []) := by
    have hempty := hread.reads 0 (2 * (value.toText layout).length + 2) [] (Nat.le_add_right _ _)
      nofun
    rwa [List.append_nil] at hempty
  have hall : readAll limit (value.toText layout) = .ok value := by
    rw [readAll, if_neg hmark, hskip]
    change (valueFrom limit (2 * (value.toText layout).length + 2) (value.toText layout)).bind _ = _
    rw [hvalue]
    rfl
  rw [read, hall]
  rfl

end Written

end SourceLoom.Json
