import SourceLoom.Proofs.Scan.Descent
import SourceLoom.Settings.File

/-!
# What settings give

A file of settings gives valid conventions, or it is refused, whatever is in it: every value is
looked at before it is taken over. There is one exception. The names of unknown settings are put in
order and joined for the message, and that breaks down if one of them is no text. Then the file is
neither accepted nor refused, as if the reader of its format had broken down. The reader of YAML is
any; of the data that it gives nothing is supposed.
-/

namespace SourceLoom

/-- Conventions that can be used: no text is empty, the number of directories is not negative, and
every ending begins with a dot. -/
structure Conventions.IsValid (conventions : Conventions) : Prop where
  /-- Something marks an alias. -/
  aliasMark_ne_nil : conventions.aliasMark ≠ []
  /-- There is a name for the directory that the alias mark stands for. -/
  aliasFolder_ne_nil : conventions.aliasFolder ≠ []
  /-- There is a name for the file that marks the root. -/
  markerFile_ne_nil : conventions.markerFile ≠ []
  /-- The number of directories that are searched is not negative. -/
  searchLevels_nonneg : 0 ≤ conventions.searchLevels
  /-- Every ending begins with a dot. -/
  head?_extensions : ∀ ending ∈ conventions.extensions, ending.head? = some '.'

namespace Settings

/-- The usual conventions are valid. -/
theorem isValid_default : ({} : Conventions).IsValid := by
  constructor <;> decide

section Values

variable {conventions : Conventions} {value : Datum}

/-- A fault of the names themselves, for which there is no message about the settings. -/
def Fault.IsBreakdown : Fault → Prop
  | .noOrder _ _ | .nameKind _ => True
  | .unknown _ | .badExtensions | .badLevels | .badText _ => False

/-- A text that is taken over is not empty. -/
theorem ne_nil_of_filledText? {text : Text} (h : filledText? value = some text) : text ≠ [] := by
  rintro rfl
  unfold filledText? at h
  split at h
  · cases h
  · rename_i hfilled
    exact hfilled (Option.some.inj h)
  · cases h

/-- An ending with its dot begins with a dot. -/
theorem head?_dotted (ending : Text) : (dotted ending).head? = some '.' := by
  unfold dotted
  split
  · assumption
  · rfl

/-- A setting is taken over, and valid conventions stay valid, or it is refused for its value. -/
theorem apply_cases (h : conventions.IsValid) (name : Text) (value : Datum) :
    (∃ after, apply conventions name value = .ok after ∧ after.IsValid) ∨
      ∃ fault, apply conventions name value = .error fault ∧ ¬fault.IsBreakdown := by
  unfold apply
  split
  · cases value with
    | list items =>
      dsimp only
      cases items.mapM filledText? with
      | none => exact Or.inr ⟨_, rfl, id⟩
      | some endings =>
        refine Or.inl ⟨_, rfl, { h with head?_extensions := ?_ }⟩
        intro ending hending
        obtain ⟨written, -, rfl⟩ := List.mem_map.mp hending
        exact head?_dotted written
    | _ => exact Or.inr ⟨_, rfl, id⟩
  · split
    · cases value with
      | int number =>
        cases number with
        | ofNat levels =>
          exact Or.inl ⟨_, rfl, { h with searchLevels_nonneg := Int.natCast_nonneg levels }⟩
        | negSucc levels => exact Or.inr ⟨_, rfl, id⟩
      | _ => exact Or.inr ⟨_, rfl, id⟩
    · cases htext : filledText? value with
      | none => exact Or.inr ⟨_, rfl, id⟩
      | some text =>
        have hfilled := ne_nil_of_filledText? htext
        dsimp only
        split
        · exact Or.inl ⟨_, rfl, { h with aliasMark_ne_nil := hfilled }⟩
        · split
          · exact Or.inl ⟨_, rfl, { h with aliasFolder_ne_nil := hfilled }⟩
          · exact Or.inl ⟨_, rfl, { h with markerFile_ne_nil := hfilled }⟩

/-- Settings are all taken over, and valid conventions stay valid, or one of them is refused for its
value. -/
theorem applyAll_cases (h : conventions.IsValid) (entries : List (Datum × Datum)) :
    (∃ after, applyAll conventions entries = .ok after ∧ after.IsValid) ∨
      ∃ fault, applyAll conventions entries = .error fault ∧ ¬fault.IsBreakdown := by
  induction entries generalizing conventions with
  | nil => exact Or.inl ⟨conventions, rfl, h⟩
  | cons entry entries ih =>
    obtain ⟨key, value⟩ := entry
    rw [applyAll]
    rcases apply_cases h ((text? key).getD []) value with
      ⟨after, happly, hafter⟩ | ⟨fault, happly, hfault⟩
    · rw [happly]
      exact ih hafter
    · rw [happly]
      exact Or.inr ⟨fault, rfl, hfault⟩

end Values

section Names

variable {unknown : List Datum} {fault : Fault}

/-- Names that are texts have an order. -/
theorem disordered?_eq_none (h : ∀ key ∈ unknown, text? key ≠ none) :
    disordered? unknown = none := by
  have htext {key : Datum} (hkey : text? key ≠ none) : key.kind = "str".toList := by
    cases key with
    | text value => rfl
    | _ => exact absurd rfl hkey
  fun_induction disordered? unknown with
  | case1 a b rest horder ih => exact ih fun key hkey => h key (List.mem_cons_of_mem _ hkey)
  | case2 a b rest hdisorder =>
    have ha := htext (h a List.mem_cons_self)
    have hb := htext (h b (List.mem_cons_of_mem _ List.mem_cons_self))
    refine absurd ?_ hdisorder
    unfold haveOrder
    rw [ha, hb]
    decide
  | case3 names hfew => rfl

/-- All of some names are texts unless one of them is none. -/
theorem mapM_text?_eq_none_iff : unknown.mapM text? = none ↔ ∃ key ∈ unknown, text? key = none := by
  induction unknown with
  | nil => exact ⟨nofun, nofun⟩
  | cons key rest ih =>
    rw [List.mapM_cons]
    cases hkey : text? key with
    | none => simp [hkey]
    | some text =>
      cases hrest : rest.mapM text? with
      | none => simp [hkey, ih.mp hrest]
      | some texts => simpa [hkey, hrest] using ih

/-- Listing unknown names breaks down just if one of them is no text. -/
theorem faultOfUnknown?_isBreakdown (h : faultOfUnknown? unknown = some fault) :
    fault.IsBreakdown ↔ ∃ key ∈ unknown, text? key = none := by
  unfold faultOfUnknown? at h
  split at h
  · rename_i a b hdisorder
    cases h
    refine iff_of_true trivial ?_
    by_contra htexts
    rw [disordered?_eq_none fun key hkey hnone => htexts ⟨key, hkey, hnone⟩] at hdisorder
    cases hdisorder
  · cases h
  · rw [← mapM_text?_eq_none_iff]
    split at h
    · rename_i texts htexts
      cases h
      exact iff_of_false id (by rw [htexts]; exact nofun)
    · rename_i hnone
      cases h
      exact iff_of_true trivial hnone

/-- Only where no name is unknown there is nothing wrong with the names. -/
theorem eq_nil_of_faultOfUnknown? (h : faultOfUnknown? unknown = none) : unknown = [] := by
  unfold faultOfUnknown? at h
  split at h
  · cases h
  · rfl
  · split at h <;> cases h

end Names

/-- Settings have a name that cannot be listed: no convention has it, and it is no text. -/
def HasOddName (entries : List (Datum × Datum)) : Prop :=
  ∃ key ∈ entries.map (·.1), isKnown key = false ∧ text? key = none

section Tables

variable {path : Path} {entries : List (Datum × Datum)} {datum : Datum} {conventions : Conventions}

/-- A table of settings gives valid conventions, if it gives any. -/
theorem ofEntries_isValid (h : ofEntries entries = .ok conventions) : conventions.IsValid := by
  unfold ofEntries at h
  split at h
  · cases h
  · rcases applyAll_cases isValid_default entries with ⟨after, happly, hafter⟩ | ⟨fault, happly, -⟩
    · cases happly.symm.trans h
      exact hafter
    · cases happly.symm.trans h

/-- A table of settings has a fault in its names just if one of these cannot be listed. -/
theorem ofEntries_isBreakdown_iff :
    (∃ fault, ofEntries entries = .error fault ∧ fault.IsBreakdown) ↔ HasOddName entries := by
  have hodd : HasOddName entries ↔
      ∃ key ∈ (entries.map (·.1)).filter fun key => !isKnown key, text? key = none := by
    simp [HasOddName, and_assoc]
  unfold ofEntries
  rw [hodd]
  cases hunknown : faultOfUnknown? ((entries.map (·.1)).filter fun key => !isKnown key) with
  | some fault =>
    rw [← faultOfUnknown?_isBreakdown hunknown]
    constructor
    · rintro ⟨_, ⟨⟩, hbreakdown⟩
      exact hbreakdown
    · exact fun hbreakdown => ⟨fault, rfl, hbreakdown⟩
  | none =>
    -- All names are known then, and the values cannot be to blame for a fault in the names.
    rw [eq_nil_of_faultOfUnknown? hunknown]
    refine iff_of_false ?_ fun ⟨key, hkey, _⟩ => nomatch hkey
    rintro ⟨other, hother, hbreakdown⟩
    rcases applyAll_cases isValid_default entries with ⟨after, happly, -⟩ | ⟨fault, happly, hfault⟩
    · cases happly.symm.trans hother
    · cases happly.symm.trans hother
      exact hfault hbreakdown

/-- A table of settings in a file gives valid conventions, if it gives any. -/
theorem ofTable_isValid (h : ofTable path entries = .ok conventions) : conventions.IsValid := by
  unfold ofTable at h
  split at h
  · rename_i given hgiven
    cases h
    exact ofEntries_isValid hgiven
  · cases h
  · cases h
  · cases h

/-- Reading a table of settings breaks down just if a name cannot be listed. -/
theorem ofTable_broken_iff :
    (∃ breakdown, ofTable path entries = .error (.broken breakdown)) ↔ HasOddName entries := by
  rw [← ofEntries_isBreakdown_iff]
  unfold ofTable
  split
  · rename_i given hgiven
    exact ⟨nofun, fun ⟨_, hfault, _⟩ => nomatch hgiven.symm.trans hfault⟩
  · rename_i kind other hfault
    exact iff_of_true ⟨_, rfl⟩ ⟨_, hfault, trivial⟩
  · rename_i kind hfault
    exact iff_of_true ⟨_, rfl⟩ ⟨_, hfault, trivial⟩
  · rename_i fault hnoOrder hnameKind hfault
    refine iff_of_false nofun ?_
    rintro ⟨other, hother, hbreakdown⟩
    cases hfault.symm.trans hother
    cases fault with
    | noOrder kind other => exact hnoOrder kind other rfl
    | nameKind kind => exact hnameKind kind rfl
    | _ => exact hbreakdown

/-- The table of settings in data, in its section if there is one. -/
def tableOf? : Datum → Option (List (Datum × Datum))
  | .table entries =>
    match (Datum.under? sectionName entries).getD (.table entries) with
    | .table inner => some inner
    | _ => none
  | _ => none

/-- Data with a table of settings give what the table gives; other data give the usual conventions
or are refused. -/
theorem ofDatum_cases (path : Path) (datum : Datum) :
    (∃ entries, tableOf? datum = some entries ∧ ofDatum path datum = ofTable path entries) ∨
      (tableOf? datum = none ∧
        (ofDatum path datum = .ok {} ∨
          ∃ refusal, ofDatum path datum = .error (.refused refusal))) := by
  cases datum with
  | null => exact Or.inr ⟨rfl, Or.inl rfl⟩
  | table entries =>
    unfold tableOf? ofDatum
    dsimp only
    cases (Datum.under? sectionName entries).getD (.table entries) with
    | table inner => exact Or.inl ⟨inner, rfl, rfl⟩
    | _ => exact Or.inr ⟨rfl, Or.inr ⟨_, rfl⟩⟩
  | _ => exact Or.inr ⟨rfl, Or.inr ⟨_, rfl⟩⟩

/-- Data give valid conventions, if they give any. -/
theorem ofDatum_isValid (h : ofDatum path datum = .ok conventions) : conventions.IsValid := by
  rcases ofDatum_cases path datum with ⟨entries, -, hsame⟩ | ⟨-, husual | ⟨refusal, hrefused⟩⟩
  · exact ofTable_isValid (hsame.symm.trans h)
  · cases husual.symm.trans h
    exact isValid_default
  · cases hrefused.symm.trans h

/-- Data of settings are accepted or refused, unless a name in their table cannot be listed. -/
theorem ofDatum_broken_iff : (∃ breakdown, ofDatum path datum = .error (.broken breakdown)) ↔
    ∃ entries, tableOf? datum = some entries ∧ HasOddName entries := by
  rcases ofDatum_cases path datum with ⟨entries, htable, hsame⟩ | ⟨hnone, hother⟩
  · rw [hsame, ofTable_broken_iff, htable]
    constructor
    · exact fun hodd => ⟨entries, rfl, hodd⟩
    · rintro ⟨_, ⟨⟩, hodd⟩
      exact hodd
  · refine iff_of_false ?_ fun ⟨_, htable, _⟩ => nomatch hnone.symm.trans htable
    rintro ⟨breakdown, hbroken⟩
    rcases hother with husual | ⟨refusal, hrefused⟩
    · cases husual.symm.trans hbroken
    · cases hrefused.symm.trans hbroken

end Tables

section Files

variable {yaml : YamlReader} {path : Path} {bytes : List UInt8} {conventions : Conventions}

/-- The reader of a format breaks down at a text: at a whole number with too many digits, or, if it
reads YAML, for a reason of its own. -/
inductive ReaderBreaksDown (yaml : YamlReader) (path : Path) (text : Text) : Prop
  /-- JSON has a whole number with too many digits. -/
  | json {count position : Nat} : Format.ofPath? path = some .json →
      Json.read Text.digitLimit text = .error ⟨.tooManyDigits count, position⟩ →
        ReaderBreaksDown yaml path text
  /-- TOML has one. -/
  | toml {count : Nat} : Format.ofPath? path = some .toml →
      Toml.read text = .error (.tooManyDigits count) → ReaderBreaksDown yaml path text
  /-- The reader of YAML has a fault that is not about the form of the text. -/
  | yaml {fault : Yaml.Fault} : Format.ofPath? path = some .yaml →
      yaml text = .error fault → fault ≠ .malformed → ReaderBreaksDown yaml path text

/-- Data are read or the file is refused, unless the reader breaks down. -/
theorem readData_broken_iff {text : Text} :
    (∃ breakdown, readData yaml path text = .error (.broken breakdown)) ↔
      ReaderBreaksDown yaml path text := by
  unfold readData
  cases hformat : Format.ofPath? path with
  | none => exact iff_of_false nofun fun h => by cases h <;> simp_all
  | some format =>
    cases format with
    | json =>
      cases hread : Json.read Text.digitLimit text with
      | ok value => exact iff_of_false nofun fun h => by cases h <;> simp_all
      | error fault =>
        obtain ⟨cause, position⟩ := fault
        cases cause with
        | tooManyDigits count => exact iff_of_true ⟨_, rfl⟩ (.json hformat hread)
        | _ => exact iff_of_false nofun fun h => by cases h <;> simp_all
    | yaml =>
      cases hread : yaml text with
      | ok datum => exact iff_of_false nofun fun h => by cases h <;> simp_all
      | error fault =>
        cases fault with
        | malformed => exact iff_of_false nofun fun h => by cases h <;> simp_all
        | _ => exact iff_of_true ⟨_, rfl⟩ (.yaml hformat hread nofun)
    | toml =>
      cases hread : Toml.read text with
      | ok datum => exact iff_of_false nofun fun h => by cases h <;> simp_all
      | error fault =>
        cases fault with
        | malformed => exact iff_of_false nofun fun h => by cases h <;> simp_all
        | tooManyDigits count => exact iff_of_true ⟨_, rfl⟩ (.toml hformat hread)

/-- What reading a file of settings breaks down at, given the answer to the question what is in it.
-/
inductive BreaksDown (yaml : YamlReader) (path : Path) : Except Files.Fault (List UInt8) → Prop
  /-- The path is none. -/
  | nullInPath : BreaksDown yaml path (.error .nullInPath)
  /-- The reader of the format breaks down. -/
  | reader {bytes : List UInt8} {text : Text} : Utf8.decode bytes = .ok text →
      ReaderBreaksDown yaml path (Text.unifyNewlines text) → BreaksDown yaml path (.ok bytes)
  /-- The name of a setting cannot be listed. -/
  | names {bytes : List UInt8} {text : Text} {datum : Datum} {entries : List (Datum × Datum)} :
      Utf8.decode bytes = .ok text → readData yaml path (Text.unifyNewlines text) = .ok datum →
        tableOf? datum = some entries → HasOddName entries → BreaksDown yaml path (.ok bytes)

/-- The bytes of a file give valid conventions, if they give any. -/
theorem ofBytes_isValid (h : ofBytes yaml path bytes = .ok conventions) : conventions.IsValid := by
  unfold ofBytes at h
  split at h
  · cases h
  · rename_i text htext
    cases hdata : readData yaml path (Text.unifyNewlines text) with
    | error fault =>
      rw [hdata] at h
      cases h
    | ok datum =>
      rw [hdata] at h
      exact ofDatum_isValid h

/-- Reading the bytes of a file breaks down at its reader or at its names. -/
theorem ofBytes_broken_iff : (∃ breakdown, ofBytes yaml path bytes = .error (.broken breakdown)) ↔
    BreaksDown yaml path (.ok bytes) := by
  unfold ofBytes
  cases htext : Utf8.decode bytes with
  | error fault =>
    refine iff_of_false nofun ?_
    rintro (_ | ⟨hother, -⟩ | ⟨hother, -⟩) <;> cases htext.symm.trans hother
  | ok text =>
    dsimp only
    cases hdata : readData yaml path (Text.unifyNewlines text) with
    | error fault =>
      constructor
      · rintro ⟨breakdown, ⟨⟩⟩
        exact .reader htext (readData_broken_iff.mp ⟨breakdown, hdata⟩)
      · rintro (_ | ⟨hother, hbroken⟩ | ⟨hother, hread, -, -⟩)
        · cases htext.symm.trans hother
          obtain ⟨breakdown, hbroken⟩ := readData_broken_iff.mpr hbroken
          cases hdata.symm.trans hbroken
          exact ⟨_, rfl⟩
        · cases htext.symm.trans hother
          cases hdata.symm.trans hread
    | ok datum =>
      refine ofDatum_broken_iff.trans ⟨?_, ?_⟩
      · rintro ⟨entries, htable, hodd⟩
        exact .names htext hdata htable hodd
      · rintro (_ | ⟨hother, hbroken⟩ | ⟨hother, hread, htable, hodd⟩)
        · cases htext.symm.trans hother
          obtain ⟨breakdown, hbroken⟩ := readData_broken_iff.mpr hbroken
          cases hdata.symm.trans hbroken
        · cases htext.symm.trans hother
          cases hdata.symm.trans hread
          exact ⟨_, htable, hodd⟩

end Files

/-- Reading a file of settings asks for its bytes and no more. -/
theorem load_run {σ : Type} (files : Files.System (StateM σ)) (yaml : YamlReader) (path : Path)
    (state : σ) : (load files yaml path).run state =
      match (files.read path).run.run state with
      | (.error .nullInPath, after) => (.error (.broken .nullInPath), after)
      | (.error fault, after) => (.error (.refused (.unreadable path fault)), after)
      | (.ok bytes, after) => (ofBytes yaml path bytes, after) := by
  unfold load
  rw [StateT.run_bind]
  rcases (files.read path).run.run state with ⟨fault | bytes, after⟩
  · cases fault <;> rfl
  · rfl

/-- Reading a file of settings from any file system, with any reader of YAML, asks for its bytes and
no more. It gives valid conventions, or the file is refused, unless it breaks down: because the path
is none, because the reader of the format breaks down, or because the name of a setting cannot be
listed. Whatever data a reader gives, they give valid conventions or are refused, unless a name
cannot be listed. -/
theorem load_settles {σ : Type} (files : Files.System (StateM σ)) (yaml : YamlReader) (path : Path)
    (state : σ) :
    (∃ outcome, (load files yaml path).run state =
        (outcome, ((files.read path).run.run state).2) ∧
      (∀ conventions, outcome = .ok conventions → conventions.IsValid) ∧
      ((∃ breakdown, outcome = .error (.broken breakdown)) ↔
        BreaksDown yaml path ((files.read path).run.run state).1)) ∧
    ∀ datum, (∀ conventions, ofDatum path datum = .ok conventions → conventions.IsValid) ∧
      ((∃ breakdown, ofDatum path datum = .error (.broken breakdown)) ↔
        ∃ entries, tableOf? datum = some entries ∧ HasOddName entries) := by
  refine ⟨?_, fun datum => ⟨fun _ => ofDatum_isValid, ofDatum_broken_iff⟩⟩
  rw [load_run]
  rcases (files.read path).run.run state with ⟨fault | bytes, after⟩
  · cases fault with
    | nullInPath => exact ⟨_, rfl, nofun, iff_of_true ⟨_, rfl⟩ .nullInPath⟩
    | failed cause place => exact ⟨_, rfl, nofun, iff_of_false nofun nofun⟩
  · exact ⟨_, rfl, fun _ => ofBytes_isValid, ofBytes_broken_iff⟩

/-- A working directory with one file of settings, in which the name of a setting is a number. -/
def numbered : Files.Tree :=
  .besideLocked [("c.yaml".toList, .file .ofFile (Utf8.encode "1: 2".toList))]

/-- A reader of YAML that knows one text, and takes every other one for malformed. -/
def numberedYaml : YamlReader := fun text =>
  if text = "1: 2".toList then .ok (.table [(.int 1, .int 2)]) else .error .malformed

/-- A file that its reader accepts may be neither accepted nor refused, although readers of YAML
give data or find their text malformed. -/
theorem exists_load_broken : ¬ ∀ yaml : YamlReader,
    (∀ text fault, yaml text = .error fault → fault = .malformed) →
      ∀ (tree : Files.Tree) (path : Path),
        (∃ conventions, (load Files.Tree.system yaml path).run tree = (.ok conventions, tree)) ∨
          ∃ refusal, (load Files.Tree.system yaml path).run tree =
            (.error (.refused refusal), tree) := by
  intro hall
  have hreader : ∀ text fault, numberedYaml text = .error fault → fault = .malformed := by
    intro text fault h
    unfold numberedYaml at h
    split at h <;> cases h
    rfl
  have hbroken : ((load Files.Tree.system numberedYaml (Path.ofText "/w/c.yaml".toList)).run
      numbered).1 = .error (.broken (.names (.nameKind "int".toList))) := by
    decide +kernel
  rcases hall numberedYaml hreader numbered (Path.ofText "/w/c.yaml".toList) with
    ⟨conventions, h⟩ | ⟨refusal, h⟩
  · cases (congrArg Prod.fst h).symm.trans hbroken
  · cases (congrArg Prod.fst h).symm.trans hbroken

end Settings

end SourceLoom
