import SourceLoom.Options

/-!
# What a command line sets

A command line is read by applying the uses of switches in its words, one after the other. An option
whose switch is not used stays what it is without any words, and of several uses of one switch the
last counts.
-/

namespace SourceLoom.Options

variable {options middle after : Options} {use : Use} {values : List Text} {uses : List Use}

/-- The uses of switches in words, in their order. -/
def usesIn : List (Word × List Text) → List Use
  | [] => []
  | (.use use, _) :: words =>
    match use.unbundle with
    | .ok (flags, last) => flags ++ last :: usesIn words
    | .error _ => usesIn words
  | (.value _, _) :: words | (.stray _, _) :: words => usesIn words

/-- The uses of switches on a command line, in their order. -/
def usesOf (arguments : List Text) : List Use :=
  match Word.ofTexts arguments with
  | .ok words => usesIn (grouped words).2
  | .error _ => []

/-- Uses that are applied one after the other, each with some values, turn options into others. -/
inductive Applies : Options → List Use → Options → Prop
  /-- Without a use, the options stay what they are. -/
  | nil (options : Options) : Applies options [] options
  /-- The first use is applied, and then the others. -/
  | cons {options middle after : Options} {use : Use} {values : List Text} {uses : List Use} :
      options.apply use values = .ok middle → Applies middle uses after →
        Applies options (use :: uses) after

/-- Uses that are applied after others. -/
theorem Applies.append {others : List Use} (h : Applies options uses middle)
    (hothers : Applies middle others after) : Applies options (uses ++ others) after := by
  induction h with
  | nil options => exact hothers
  | cons hfirst _ ih => exact .cons hfirst (ih hothers)

/-- A step that succeeds after another one has an outcome of that one. -/
theorem exists_of_bind_eq_ok {ε α β : Type} {x : Except ε α} {f : α → Except ε β} {b : β}
    (h : (x >>= f) = .ok b) : ∃ a, x = .ok a ∧ f a = .ok b := by
  cases x with
  | error e => cases h
  | ok a => exact ⟨a, rfl, h⟩

/-- A step that succeeds whatever its faults are called succeeds. -/
theorem of_mapError_eq_ok {ε ι α : Type} {x : Except ε α} {f : ε → ι} {a : α}
    (h : x.mapError f = .ok a) : x = .ok a := by
  cases x with
  | error e => cases h
  | ok b =>
    cases h
    rfl

/-- Flags are applied one after the other. -/
theorem applies_of_flags
    (h : uses.foldlM (fun options flag => options.apply flag []) options = .ok after) :
    Applies options uses after := by
  induction uses generalizing options with
  | nil =>
    cases h
    exact .nil _
  | cons flag flags ih =>
    rw [List.foldlM_cons] at h
    obtain ⟨middle, hfirst, hrest⟩ := exists_of_bind_eq_ok h
    exact .cons hfirst (ih hrest)

/-- Reading a word applies the uses in it. -/
theorem applies_of_next {reading later : Reading} {word : Word × List Text}
    (h : reading.next word = .ok later) :
    Applies reading.options (usesIn [word]) later.options := by
  obtain ⟨text | use | text, following⟩ := word
  · cases h
    exact .nil _
  · obtain ⟨⟨flags, last⟩, hunbundle, h⟩ := exists_of_bind_eq_ok h
    obtain ⟨⟨values, left⟩, -, h⟩ := exists_of_bind_eq_ok h
    obtain ⟨middle, hflags, h⟩ := exists_of_bind_eq_ok h
    obtain ⟨after, hlast, h⟩ := exists_of_bind_eq_ok h
    cases h
    rw [usesIn, of_mapError_eq_ok hunbundle]
    exact (applies_of_flags hflags).append (.cons hlast (.nil after))
  · cases h
    exact .nil _

/-- The uses in words are those in the first one and in the others. -/
theorem usesIn_cons (word : Word × List Text) (words : List (Word × List Text)) :
    usesIn (word :: words) = usesIn [word] ++ usesIn words := by
  obtain ⟨text | use | text, following⟩ := word
  · rfl
  · rw [usesIn, usesIn]
    cases use.unbundle with
    | error fault => rfl
    | ok row =>
      obtain ⟨flags, last⟩ := row
      exact (List.append_cons flags last _)
  · rfl

/-- Reading words applies the uses in them. -/
theorem applies_of_foldlM {reading later : Reading} {words : List (Word × List Text)}
    (h : words.foldlM Reading.next reading = .ok later) :
    Applies reading.options (usesIn words) later.options := by
  induction words generalizing reading with
  | nil =>
    cases h
    exact .nil _
  | cons word words ih =>
    rw [List.foldlM_cons] at h
    obtain ⟨next, hfirst, hrest⟩ := exists_of_bind_eq_ok h
    rw [usesIn_cons]
    exact (applies_of_next hfirst).append (ih hrest)

/-- Reading a command line applies the uses of switches on it. -/
theorem applies_of_read {arguments : List Text} (h : read arguments = .ok options) :
    Applies {} (usesOf arguments) options := by
  obtain ⟨words, hwords, h⟩ := exists_of_bind_eq_ok h
  obtain ⟨reading, hreading, h⟩ := exists_of_bind_eq_ok h
  rw [usesOf, of_mapError_eq_ok hwords]
  split at h
  · cases h
    exact applies_of_foldlM hreading
  · cases h

/-- Giving a switch its value sets neither the entries nor whether the project is drawn, and the
file of settings only if it is that of the switch. -/
theorem setValue_eq_ok {switch : Switch} {value : Option Text}
    (h : options.setValue switch value = .ok after) :
    after.entries = options.entries ∧ after.drawing = options.drawing ∧
      (switch ≠ .settings → after.settings = options.settings) := by
  unfold setValue at h
  split at h
  case h_2 =>
    obtain ⟨depth, -, h⟩ := exists_of_bind_eq_ok h
    cases h
    exact ⟨rfl, rfl, fun _ => rfl⟩
  case h_3 =>
    cases h
    exact ⟨rfl, rfl, fun hne => absurd rfl hne⟩
  case h_8 =>
    obtain ⟨style, -, h⟩ := exists_of_bind_eq_ok h
    cases h
    exact ⟨rfl, rfl, fun _ => rfl⟩
  all_goals
    cases h
    exact ⟨rfl, rfl, fun _ => rfl⟩

/-- A use sets the entries only if they are those of its switch, and so it is with the file of
settings. Whether the project is drawn is said by the last use of the switch for it. -/
theorem apply_eq_ok (h : options.apply use values = .ok after) :
    (use.switch ≠ .entries → after.entries = options.entries) ∧
      (use.switch ≠ .settings → after.settings = options.settings) ∧
      after.drawing =
        if use.switch = .drawing then !isNegation use.spelling else options.drawing := by
  unfold apply at h
  dsimp only at h
  split at h
  case h_1 => cases h
  case h_2 => cases h
  case h_3 hswitch =>
    cases h
    exact ⟨fun hne => absurd hswitch hne, fun _ => rfl, by rw [hswitch]; rfl⟩
  case h_4 hswitch =>
    cases h
    exact ⟨fun _ => rfl, fun _ => rfl, (if_pos hswitch).symm⟩
  case h_6 hswitch =>
    obtain ⟨level, -, h⟩ := exists_of_bind_eq_ok h
    cases h
    exact ⟨fun _ => rfl, fun _ => rfl, by rw [hswitch]; rfl⟩
  case h_11 hdrawing _ _ _ _ _ _ =>
    obtain ⟨middle, hvalue, h⟩ := exists_of_bind_eq_ok h
    obtain ⟨hentries, hdrawn, hsettings⟩ := setValue_eq_ok (of_mapError_eq_ok hvalue)
    cases h
    exact ⟨fun _ => hentries, hsettings, hdrawn.trans (if_neg hdrawing).symm⟩
  all_goals
    rename_i hswitch
    cases h
    exact ⟨fun _ => rfl, fun _ => rfl, by rw [hswitch]; rfl⟩

namespace Applies

/-- Uses of other switches leave the entries as they are. -/
theorem entries_eq (h : Applies options uses after) (hother : ∀ use ∈ uses, use.switch ≠ .entries) :
    after.entries = options.entries := by
  induction h with
  | nil options => rfl
  | cons hfirst _ ih =>
    obtain ⟨huse, hrest⟩ := List.forall_mem_cons.mp hother
    exact (ih hrest).trans ((apply_eq_ok hfirst).1 huse)

/-- Uses of other switches leave the file of settings as it is. -/
theorem settings_eq (h : Applies options uses after)
    (hother : ∀ use ∈ uses, use.switch ≠ .settings) : after.settings = options.settings := by
  induction h with
  | nil options => rfl
  | cons hfirst _ ih =>
    obtain ⟨huse, hrest⟩ := List.forall_mem_cons.mp hother
    exact (ih hrest).trans ((apply_eq_ok hfirst).2.1 huse)

/-- Whether the project is drawn is said by the last use of the switch for it. -/
theorem drawing_eq (h : Applies options uses after) :
    after.drawing = uses.foldl (fun drawn use =>
      if use.switch = .drawing then !isNegation use.spelling else drawn) options.drawing := by
  induction h with
  | nil options => rfl
  | cons hfirst _ ih => rw [ih, (apply_eq_ok hfirst).2.2, List.foldl_cons]

end Applies

/-- A command line that asks for a scan and nothing besides: it names no entries and no file of
settings, and it says that the project is not drawn, without taking this back. -/
structure AsksForScan (arguments : List Text) : Prop where
  /-- No entries are named. -/
  noEntries : ∀ use ∈ usesOf arguments, use.switch ≠ .entries
  /-- No file of settings is named. -/
  noSettings : ∀ use ∈ usesOf arguments, use.switch ≠ .settings
  /-- The last word on drawing the project is that it is not drawn. -/
  noDrawing : ∃ before last later, usesOf arguments = before ++ last :: later ∧
    last.switch = .drawing ∧ isNegation last.spelling = true ∧
      ∀ use ∈ later, use.switch ≠ .drawing

/-- The options of such a command line name no entries and no settings, and no drawing is wanted. -/
theorem AsksForScan.options_of_read {arguments : List Text} (hscan : AsksForScan arguments)
    (h : read arguments = .ok options) :
    options.entries = none ∧ options.settings = none ∧ options.drawing = false := by
  have happlies := applies_of_read h
  refine ⟨happlies.entries_eq hscan.noEntries, happlies.settings_eq hscan.noSettings, ?_⟩
  obtain ⟨before, last, later, huses, hlast, hnegation, hlater⟩ := hscan.noDrawing
  have hkept (drawn : Bool) : later.foldl (fun drawn use =>
      if use.switch = .drawing then !isNegation use.spelling else drawn) drawn = drawn := by
    clear huses
    induction later with
    | nil => rfl
    | cons use later ih =>
      obtain ⟨huse, hrest⟩ := List.forall_mem_cons.mp hlater
      rw [List.foldl_cons, if_neg huse]
      exact ih hrest
  rw [happlies.drawing_eq, huses, List.foldl_append, List.foldl_cons, hkept, if_pos hlast,
    hnegation]
  rfl

end SourceLoom.Options
