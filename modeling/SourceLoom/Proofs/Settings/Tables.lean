import SourceLoom.Proofs.Settings.Validity

/-!
# Tables of settings

Conventions can be written as a table that has every setting once. A table of settings is accepted
just if each of its names is that of a setting and each value is of the right kind for it. Then the
conventions have the values of the table, every ending with its dot, and the usual values where the
table has none. So the order of a table does not matter, although the values are looked at one
after the other and the first one that does not fit ends the reading; and the table that conventions
are written as is accepted again and gives them back.

Nothing is said here about how a table is refused: which of several faults is reported may well
depend on the order.
-/

namespace SourceLoom

namespace Datum

variable {key value : Datum} {name other : Text} {entries : List (Datum × Datum)}

/-- Only a text is the same key as a text, and only the same one. -/
theorem sameKey_text_iff : sameKey key (text name) = true ↔ key = text name := by
  have hnone : quotient? (text name) = none := rfl
  unfold sameKey
  rw [hnone]
  cases key <;> cases quotient? _ <;> simp

/-- What a name is put under first is found under it. -/
theorem under?_cons_self (name : Text) (value : Datum) (entries : List (Datum × Datum)) :
    under? name ((text name, value) :: entries) = some value := by
  rw [under?, if_pos (sameKey_text_iff.mpr rfl)]

/-- What is under another key is not found under a name. -/
theorem under?_cons_of_ne (h : key ≠ text name) (value : Datum) (entries : List (Datum × Datum)) :
    under? name ((key, value) :: entries) = under? name entries := by
  rw [under?, if_neg (mt sameKey_text_iff.mp h)]

/-- What is put under one name changes nothing under another. -/
theorem under?_put_of_ne (h : name ≠ other) :
    under? other (put (text name) value entries) = under? other entries := by
  have hkey : text name ≠ text other := fun hsame => h (Datum.text.inj hsame)
  induction entries with
  | nil => exact under?_cons_of_ne hkey value []
  | cons entry entries ih =>
    obtain ⟨key, old⟩ := entry
    rw [put]
    split
    · rename_i hsame
      rw [sameKey_text_iff.mp hsame, under?_cons_of_ne hkey, under?_cons_of_ne hkey]
    · by_cases hfirst : key = text other
      · rw [hfirst, under?_cons_self, under?_cons_self]
      · rw [under?_cons_of_ne hfirst, under?_cons_of_ne hfirst, ih]

/-- What is found under a name is in the table. -/
theorem mem_of_under? (h : under? name entries = some value) : (text name, value) ∈ entries := by
  induction entries with
  | nil => cases h
  | cons entry entries ih =>
    obtain ⟨key, old⟩ := entry
    by_cases hfirst : key = text name
    · rw [hfirst, under?_cons_self] at h
      cases h
      rw [hfirst]
      exact List.mem_cons_self
    · rw [under?_cons_of_ne hfirst] at h
      exact List.mem_cons_of_mem _ (ih h)

end Datum

namespace Settings

open Datum

section Tables

variable {name : Text} {value : Datum} {entries others table : List (Datum × Datum)}

/-- The names that a table has entries under. -/
def namesOf (entries : List (Datum × Datum)) : List Text := entries.filterMap (text? ·.1)

/-- What has an entry is among the names. -/
theorem mem_namesOf (h : (.text name, value) ∈ entries) : name ∈ namesOf entries :=
  List.mem_filterMap.mpr ⟨_, h, rfl⟩

/-- In a table without repeated names, every entry is found under its name. -/
theorem under?_eq_some_iff (hnames : (namesOf entries).Nodup) :
    under? name entries = some value ↔ (.text name, value) ∈ entries := by
  refine ⟨mem_of_under?, fun hmem => ?_⟩
  induction entries with
  | nil => cases hmem
  | cons entry entries ih =>
    obtain ⟨key, old⟩ := entry
    have hrest : (namesOf entries).Nodup :=
      hnames.sublist ((List.sublist_cons_self _ _).filterMap _)
    rcases List.mem_cons.mp hmem with hfirst | hlater
    · cases hfirst
      exact under?_cons_self name value entries
    · have hkey : key ≠ .text name := by
        rintro rfl
        exact (List.nodup_cons.mp hnames).1 (mem_namesOf hlater)
      rw [under?_cons_of_ne hkey]
      exact ih hrest hlater

/-- What is found in a table without repeated names does not depend on its order. -/
theorem under?_perm (hnames : (namesOf entries).Nodup) (hperm : others.Perm entries) :
    under? name others = under? name entries := by
  have hothers : (namesOf others).Nodup := (hperm.filterMap _).nodup_iff.mpr hnames
  refine Option.ext fun value => ?_
  rw [under?_eq_some_iff hothers, under?_eq_some_iff hnames, hperm.mem_iff]

end Tables

/-- An entry that is fit for a table of settings. -/
inductive IsSetting : Datum × Datum → Prop
  /-- The three texts are not empty. -/
  | text {name value : Text} : name ∈ [aliasMark, aliasFolder, markerFile] → value ≠ [] →
      IsSetting (.text name, .text value)
  /-- The number of directories is not negative. -/
  | levels (levels : Nat) : IsSetting (.text searchLevels, .int levels)
  /-- The endings are texts, and none of them is empty. -/
  | endings {endings : List Text} : (∀ ending ∈ endings, ending ≠ []) →
      IsSetting (.text extensions, .list (endings.map .text))

/-- A value as conventions keep it: endings have their dots. -/
def kept : Datum → Datum
  | .list items => .list (items.map fun
    | .text ending => .text (dotted ending)
    | other => other)
  | other => other

/-- The table of some conventions. -/
def toEntries (conventions : Conventions) : List (Datum × Datum) :=
  [(.text aliasMark, .text conventions.aliasMark),
    (.text aliasFolder, .text conventions.aliasFolder),
    (.text markerFile, .text conventions.markerFile),
    (.text searchLevels, .int conventions.searchLevels),
    (.text extensions, .list (conventions.extensions.map .text))]

section Applying

variable {conventions after : Conventions} {name : Text} {value : Datum}
  {entry : Datum × Datum} {entries : List (Datum × Datum)}

/-- The name of a setting is one of the five. -/
theorem IsSetting.exists_name (h : IsSetting entry) : ∃ name ∈ names, entry.1 = .text name := by
  cases h with
  | @text name value hname hvalue =>
    refine ⟨name, ?_, rfl⟩
    simp only [List.mem_cons, List.not_mem_nil, or_false] at hname
    rcases hname with rfl | rfl | rfl <;> decide
  | levels levels => exact ⟨searchLevels, by decide, rfl⟩
  | endings hendings => exact ⟨extensions, by decide, rfl⟩

/-- A text that is not empty is taken over as it is. -/
theorem filledText?_eq_some_iff {text : Text} :
    filledText? value = some text ↔ value = .text text ∧ text ≠ [] := by
  refine ⟨fun h => ⟨?_, ne_nil_of_filledText? h⟩, ?_⟩
  · unfold filledText? at h
    split at h
    · cases h
    · rename_i given hfilled
      rw [Option.some.inj h]
    · cases h
  · rintro ⟨rfl, hfilled⟩
    obtain ⟨c, rest, rfl⟩ := List.exists_cons_of_ne_nil hfilled
    rfl

/-- Some values are all taken over just if they are texts and none of them is empty. -/
theorem mapM_filledText?_eq_some_iff {items : List Datum} {endings : List Text} :
    items.mapM filledText? = some endings ↔
      items = endings.map .text ∧ ∀ ending ∈ endings, ending ≠ [] := by
  induction items generalizing endings with
  | nil => cases endings <;> simp
  | cons item items ih =>
    rw [List.mapM_cons, Option.bind_eq_bind, Option.bind_eq_some_iff]
    constructor
    · rintro ⟨ending, hending, hrest⟩
      obtain ⟨others, hothers, hendings⟩ := Option.bind_eq_some_iff.mp hrest
      cases hendings
      obtain ⟨rfl, hfilled⟩ := filledText?_eq_some_iff.mp hending
      obtain ⟨rfl, hall⟩ := ih.mp hothers
      exact ⟨rfl, List.forall_mem_cons.mpr ⟨hfilled, hall⟩⟩
    · rintro ⟨hitems, hall⟩
      cases endings with
      | nil => cases hitems
      | cons ending endings =>
        obtain ⟨rfl, rfl⟩ := List.cons.inj hitems
        obtain ⟨hfilled, hrest⟩ := List.forall_mem_cons.mp hall
        refine ⟨ending, filledText?_eq_some_iff.mpr ⟨rfl, hfilled⟩, ?_⟩
        rw [ih.mpr ⟨rfl, hrest⟩]
        rfl

/-- A setting is taken over under its name. -/
theorem IsSetting.apply_eq (h : IsSetting (.text name, value)) (conventions : Conventions) :
    ∃ after, apply conventions name value = .ok after ∧
      toEntries after = put (.text name) (kept value) (toEntries conventions) := by
  cases h with
  | @text name value hname hvalue =>
    have hfilled : filledText? (.text value) = some value :=
      filledText?_eq_some_iff.mpr ⟨rfl, hvalue⟩
    simp only [List.mem_cons, List.not_mem_nil, or_false] at hname
    rcases hname with rfl | rfl | rfl
    · refine ⟨{ conventions with aliasMark := value }, ?_, rfl⟩
      unfold apply
      rw [if_neg (by decide), if_neg (by decide), hfilled]
      rfl
    · refine ⟨{ conventions with aliasFolder := value }, ?_, rfl⟩
      unfold apply
      rw [if_neg (by decide), if_neg (by decide), hfilled]
      rfl
    · refine ⟨{ conventions with markerFile := value }, ?_, rfl⟩
      unfold apply
      rw [if_neg (by decide), if_neg (by decide), hfilled]
      rfl
  | levels levels => exact ⟨{ conventions with searchLevels := levels }, rfl, rfl⟩
  | @endings endings hendings =>
    refine ⟨{ conventions with extensions := endings.map dotted }, ?_, ?_⟩
    · unfold apply
      rw [if_pos rfl]
      simp only [mapM_filledText?_eq_some_iff.mpr ⟨rfl, hendings⟩]
    · rw [kept, List.map_map]
      change _ = put _ (.list (endings.map (Datum.text ∘ dotted))) _
      rw [← List.map_map]
      rfl

/-- What is taken over under one of the five names is a setting. -/
theorem isSetting_of_apply (hname : name ∈ names)
    (h : apply conventions name value = .ok after) : IsSetting (.text name, value) := by
  have htext (hname : name ∈ [aliasMark, aliasFolder, markerFile]) :
      IsSetting (.text name, value) := by
    have hother : name ≠ extensions ∧ name ≠ searchLevels := by
      simp only [List.mem_cons, List.not_mem_nil, or_false] at hname
      rcases hname with rfl | rfl | rfl <;> decide
    unfold apply at h
    rw [if_neg hother.1, if_neg hother.2] at h
    cases hfilled : filledText? value with
    | none =>
      rw [hfilled] at h
      cases h
    | some text =>
      obtain ⟨rfl, hne⟩ := filledText?_eq_some_iff.mp hfilled
      exact .text hname hne
  simp only [names, List.mem_cons, List.not_mem_nil, or_false] at hname
  rcases hname with rfl | rfl | rfl | rfl | rfl
  · exact htext (by decide)
  · exact htext (by decide)
  · exact htext (by decide)
  · unfold apply at h
    rw [if_neg (by decide), if_pos rfl] at h
    split at h
    · exact .levels _
    · cases h
  · unfold apply at h
    rw [if_pos rfl] at h
    split at h
    · split at h
      · rename_i hitems
        obtain ⟨rfl, hfilled⟩ := mapM_filledText?_eq_some_iff.mp hitems
        exact .endings hfilled
      · cases h
    · cases h

/-- Settings are all taken over, one after the other. -/
theorem applyAll_eq (h : ∀ entry ∈ entries, IsSetting entry) (conventions : Conventions) :
    ∃ after, applyAll conventions entries = .ok after ∧
      toEntries after = entries.foldl (fun table entry => put entry.1 (kept entry.2) table)
        (toEntries conventions) := by
  induction entries generalizing conventions with
  | nil => exact ⟨conventions, rfl, rfl⟩
  | cons entry entries ih =>
    obtain ⟨hfirst, hrest⟩ := List.forall_mem_cons.mp h
    obtain ⟨key, value⟩ := entry
    obtain ⟨name, hname, hkey⟩ := hfirst.exists_name
    cases hkey
    obtain ⟨between, hbetween, htable⟩ := hfirst.apply_eq conventions
    obtain ⟨after, hafter, hall⟩ := ih hrest between
    refine ⟨after, ?_, ?_⟩
    · rw [applyAll]
      change (apply conventions name value >>= fun between => applyAll between entries) = _
      rw [hbetween]
      exact hafter
    · rw [hall, htable]
      rfl

/-- If entries under known names are all taken over, they are settings. -/
theorem isSetting_of_applyAll (hknown : ∀ entry ∈ entries, isKnown entry.1 = true)
    (h : applyAll conventions entries = .ok after) : ∀ entry ∈ entries, IsSetting entry := by
  induction entries generalizing conventions with
  | nil => nofun
  | cons entry entries ih =>
    obtain ⟨hfirst, hrest⟩ := List.forall_mem_cons.mp hknown
    obtain ⟨key, value⟩ := entry
    obtain ⟨name, hname, hsame⟩ := List.any_eq_true.mp hfirst
    cases sameKey_text_iff.mp hsame
    rw [applyAll] at h
    change (apply conventions name value >>= fun between => applyAll between entries) = _ at h
    cases hbetween : apply conventions name value with
    | error fault =>
      rw [hbetween] at h
      cases h
    | ok between =>
      rw [hbetween] at h
      exact List.forall_mem_cons.mpr ⟨isSetting_of_apply hname hbetween, ih hrest h⟩

end Applying

section Fields

variable {conventions others : Conventions} {name : Text} {value : Datum}
  {entries table : List (Datum × Datum)}

/-- Under each of the five names, the table of some conventions has the value that they have. -/
theorem under?_toEntries (conventions : Conventions) :
    under? aliasMark (toEntries conventions) = some (.text conventions.aliasMark) ∧
      under? aliasFolder (toEntries conventions) = some (.text conventions.aliasFolder) ∧
      under? markerFile (toEntries conventions) = some (.text conventions.markerFile) ∧
      under? searchLevels (toEntries conventions) = some (.int conventions.searchLevels) ∧
      under? extensions (toEntries conventions) =
        some (.list (conventions.extensions.map .text)) := by
  exact ⟨rfl, rfl, rfl, rfl, rfl⟩

/-- Conventions are told by their values under the five names. -/
theorem eq_of_under?_toEntries
    (h : ∀ name ∈ names, under? name (toEntries conventions) = under? name (toEntries others)) :
    conventions = others := by
  obtain ⟨hmark, hfolder, hmarker, hlevels, hendings⟩ := under?_toEntries conventions
  obtain ⟨omark, ofolder, omarker, olevels, oendings⟩ := under?_toEntries others
  rw [← h _ (by decide)] at omark ofolder omarker olevels oendings
  obtain ⟨mark, folder, marker, levels, endings⟩ := conventions
  obtain ⟨mark', folder', marker', levels', endings'⟩ := others
  cases hmark.symm.trans omark
  cases hfolder.symm.trans ofolder
  cases hmarker.symm.trans omarker
  cases hlevels.symm.trans olevels
  have hsame : endings.map Datum.text = endings'.map Datum.text :=
    Datum.list.inj (Option.some.inj (hendings.symm.trans oendings))
  cases List.map_injective_iff.mpr (fun _ _ => Datum.text.inj) hsame
  rfl

/-- After settings with different names are put into a table, each name has the value that is put
under it, and where there is none the value that it had. -/
theorem under?_foldl_put (hnames : (namesOf entries).Nodup)
    (hsettings : ∀ entry ∈ entries, IsSetting entry) (name : Text) (table : List (Datum × Datum)) :
    under? name (entries.foldl (fun table entry => put entry.1 (kept entry.2) table) table) =
      ((under? name entries).map kept).or (under? name table) := by
  induction entries generalizing table with
  | nil => rfl
  | cons entry entries ih =>
    obtain ⟨hfirst, hrest⟩ := List.forall_mem_cons.mp hsettings
    obtain ⟨key, value⟩ := entry
    obtain ⟨first, -, hkey⟩ := hfirst.exists_name
    cases hkey
    obtain ⟨hnew, hothers⟩ := List.nodup_cons.mp hnames
    rw [List.foldl_cons, ih hothers hrest]
    by_cases hname : first = name
    · have hlast : under? first entries = none :=
        Option.eq_none_iff_forall_ne_some.mpr fun later hlater =>
          hnew (mem_namesOf (mem_of_under? hlater))
      rw [← hname, hlast, under?_cons_self, under?_put]
      rfl
    · rw [under?_cons_of_ne fun hsame => hname (Datum.text.inj hsame), under?_put_of_ne hname]

/-- Settings have known names. -/
theorem IsSetting.isKnown {entry : Datum × Datum} (h : IsSetting entry) :
    isKnown entry.1 = true := by
  obtain ⟨name, hname, hkey⟩ := h.exists_name
  exact List.any_eq_true.mpr ⟨name, hname, sameKey_text_iff.mpr hkey⟩

/-- A table is accepted just if all names are known and all values are taken over. -/
theorem ofEntries_eq_ok_iff_applyAll : ofEntries entries = .ok conventions ↔
    (∀ entry ∈ entries, isKnown entry.1 = true) ∧ applyAll {} entries = .ok conventions := by
  have hknown : (entries.map (·.1)).filter (fun key => !isKnown key) = [] ↔
      ∀ entry ∈ entries, isKnown entry.1 = true := by
    simp [List.filter_eq_nil_iff]
  unfold ofEntries
  rw [← hknown]
  constructor
  · intro h
    split at h
    · cases h
    · rename_i hnone
      exact ⟨eq_nil_of_faultOfUnknown? hnone, h⟩
  · rintro ⟨hnil, happly⟩
    rw [hnil]
    exact happly

/-- A table of settings with different names gives some conventions just if all its entries are
settings and the conventions have what is kept of its values, and where it has none the usual ones.
-/
theorem ofEntries_eq_ok_iff (hnames : (namesOf entries).Nodup) :
    ofEntries entries = .ok conventions ↔
      (∀ entry ∈ entries, IsSetting entry) ∧ ∀ name ∈ names,
        under? name (toEntries conventions) =
          ((under? name entries).map kept).or (under? name (toEntries {})) := by
  rw [ofEntries_eq_ok_iff_applyAll]
  constructor
  · rintro ⟨hknown, happly⟩
    have hsettings := isSetting_of_applyAll hknown happly
    refine ⟨hsettings, fun name _ => ?_⟩
    obtain ⟨after, hafter, htable⟩ := applyAll_eq hsettings {}
    cases happly.symm.trans hafter
    rw [htable, under?_foldl_put hnames hsettings]
  · rintro ⟨hsettings, hvalues⟩
    refine ⟨fun entry hentry => (hsettings entry hentry).isKnown, ?_⟩
    obtain ⟨after, hafter, htable⟩ := applyAll_eq hsettings {}
    have hsame : after = conventions := eq_of_under?_toEntries fun name hname => by
      rw [htable, under?_foldl_put hnames hsettings, hvalues name hname]
    rw [← hsame]
    exact hafter

/-- The table of some conventions has different names. -/
theorem nodup_namesOf_toEntries (conventions : Conventions) :
    (namesOf (toEntries conventions)).Nodup := by
  change [aliasMark, aliasFolder, markerFile, searchLevels, extensions].Nodup
  decide

/-- The entries of the table of valid conventions are settings, and they are kept as they are. -/
theorem isSetting_of_mem_toEntries (h : conventions.IsValid) {entry : Datum × Datum}
    (hentry : entry ∈ toEntries conventions) : IsSetting entry ∧ kept entry.2 = entry.2 := by
  have hdotted : conventions.extensions.map dotted = conventions.extensions :=
    List.map_congr_left (fun ending hending => if_pos (h.head?_extensions ending hending))
      |>.trans (List.map_id _)
  have hfilled (ending) (hending : ending ∈ conventions.extensions) : ending ≠ [] := by
    rintro rfl
    cases h.head?_extensions [] hending
  simp only [toEntries, List.mem_cons, List.not_mem_nil, or_false] at hentry
  rcases hentry with rfl | rfl | rfl | rfl | rfl
  · exact ⟨.text (by decide) h.aliasMark_ne_nil, rfl⟩
  · exact ⟨.text (by decide) h.aliasFolder_ne_nil, rfl⟩
  · exact ⟨.text (by decide) h.markerFile_ne_nil, rfl⟩
  · obtain ⟨levels, hlevels⟩ := Int.eq_ofNat_of_zero_le h.searchLevels_nonneg
    rw [hlevels]
    exact ⟨.levels levels, rfl⟩
  · refine ⟨.endings hfilled, ?_⟩
    rw [kept, List.map_map]
    change Datum.list (conventions.extensions.map (Datum.text ∘ dotted)) = _
    rw [← List.map_map, hdotted]

/-- The table of valid conventions gives them back. -/
theorem ofEntries_toEntries (h : conventions.IsValid) :
    ofEntries (toEntries conventions) = .ok conventions := by
  refine (ofEntries_eq_ok_iff (nodup_namesOf_toEntries conventions)).mpr
    ⟨fun entry hentry => (isSetting_of_mem_toEntries h hentry).1, fun name hname => ?_⟩
  have hfound : ∃ value, under? name (toEntries conventions) = some value := by
    obtain ⟨hmark, hfolder, hmarker, hlevels, hendings⟩ := under?_toEntries conventions
    simp only [names, List.mem_cons, List.not_mem_nil, or_false] at hname
    rcases hname with rfl | rfl | rfl | rfl | rfl
    · exact ⟨_, hmark⟩
    · exact ⟨_, hfolder⟩
    · exact ⟨_, hmarker⟩
    · exact ⟨_, hlevels⟩
    · exact ⟨_, hendings⟩
  obtain ⟨value, hvalue⟩ := hfound
  rw [hvalue]
  have hkept := (isSetting_of_mem_toEntries h (mem_of_under? hvalue)).2
  exact (congrArg some hkept).symm

/-- Whatever conventions a table of settings gives, it gives them in every order. -/
theorem ofEntries_perm (hnames : (namesOf entries).Nodup) (hperm : table.Perm entries) :
    ofEntries table = .ok conventions ↔ ofEntries entries = .ok conventions := by
  have htable : (namesOf table).Nodup := (hperm.filterMap _).nodup_iff.mpr hnames
  rw [ofEntries_eq_ok_iff htable, ofEntries_eq_ok_iff hnames]
  simp only [hperm.mem_iff, under?_perm hnames hperm]

/-- Every setting can be made: a table of settings with different names gives conventions. -/
theorem exists_ofEntries_eq_ok (hsettings : ∀ entry ∈ entries, IsSetting entry) :
    ∃ conventions, ofEntries entries = .ok conventions := by
  obtain ⟨after, hafter, -⟩ := applyAll_eq hsettings {}
  exact ⟨after, ofEntries_eq_ok_iff_applyAll.mpr
    ⟨fun entry hentry => (hsettings entry hentry).isKnown, hafter⟩⟩

/-- A table with every name once is accepted just if all its entries are settings. In every order
it gives the same conventions then: under each name they have what is kept of the value that the
table has, and the usual value where the table has none. The table that they are written as, in
every order, gives them back. -/
theorem ofEntries_accepts (hnames : (namesOf entries).Nodup) :
    ((∃ conventions, ofEntries entries = .ok conventions) ↔
      ∀ entry ∈ entries, IsSetting entry) ∧
    (∀ others, others.Perm entries → ∀ conventions,
      ofEntries others = .ok conventions ↔ ofEntries entries = .ok conventions) ∧
    ∀ conventions, ofEntries entries = .ok conventions →
      (∀ name ∈ names,
        (∀ value, (.text name, value) ∈ entries →
          under? name (toEntries conventions) = some (kept value)) ∧
        ((∀ value, (.text name, value) ∉ entries) →
          under? name (toEntries conventions) = under? name (toEntries {}))) ∧
      ∀ others, others.Perm (toEntries conventions) → ofEntries others = .ok conventions := by
  refine ⟨⟨?_, exists_ofEntries_eq_ok⟩, fun others hperm conventions => ofEntries_perm hnames hperm,
    fun conventions h => ⟨fun name hname => ?_, fun others hperm => ?_⟩⟩
  · rintro ⟨conventions, h⟩
    exact ((ofEntries_eq_ok_iff hnames).mp h).1
  · have hvalue := ((ofEntries_eq_ok_iff hnames).mp h).2 name hname
    refine ⟨fun value hmem => ?_, fun habsent => ?_⟩
    · rw [hvalue, (under?_eq_some_iff hnames).mpr hmem]
      rfl
    · have hnone : under? name entries = none :=
        Option.eq_none_iff_forall_ne_some.mpr fun value hfound =>
          habsent value (mem_of_under? hfound)
      rw [hvalue, hnone]
      rfl
  · exact (ofEntries_perm (nodup_namesOf_toEntries conventions) hperm).mpr
      (ofEntries_toEntries (ofEntries_isValid h))

/-- An alias mark, after endings of which one is without its dot. -/
def marked : List (Datum × Datum) :=
  [(.text extensions, .list [.text "ts".toList, .text ".vue".toList]),
    (.text aliasMark, .text "~".toList)]

/-- In both orders, two settings give the same conventions. -/
theorem ofEntries_accepts_marked : (namesOf marked).Nodup ∧
    ∀ others, others.Perm marked → ofEntries others =
      .ok { aliasMark := "~".toList, extensions := [".ts".toList, ".vue".toList] } := by
  have hnames : (namesOf marked).Nodup := by decide
  exact ⟨hnames, fun others hperm => ((ofEntries_accepts hnames).2.1 others hperm _).mpr rfl⟩

end Fields

end Settings

end SourceLoom
