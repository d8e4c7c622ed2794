import SourceLoom.Proofs.Reference.Aliases
import SourceLoom.Proofs.Traversal.Lookups

/-!
# Aliases while imports are followed

An alias is recognised twice: when a reference is found to be local, by the place of its slashes and
by the alias mark, and when it is resolved, by the alias mark alone. The two agree on all references
with a slash, whatever the mark is. A reference without a slash is the name of a package, also where
the mark has no slash and begins it; it is not resolved then.

So every alias with a slash in a file that was expanded is accounted for as an alias. Without a root
of the project it is recorded as missing. With a root it leads to a candidate for its place in the
alias folder of the root, or it is recorded as missing, or there is one warning about it.
-/

namespace SourceLoom

namespace Reference

open Files

variable {conventions : Conventions} {cwd path root : Path} {reference rest : Text}

/-- A reference that begins with the alias mark is local just if it has a slash. -/
theorem isLocal_iff_of_isPrefix (h : conventions.aliasMark <+: reference) :
    isLocal conventions reference = true ↔ '/' ∈ reference := by
  refine ⟨Traversal.mem_slash_of_isLocal, fun hslash => ?_⟩
  unfold isLocal
  rw [List.isPrefixOf_iff_prefix.mpr h, if_neg (not_not.mpr hslash), if_pos rfl]
  split
  · rfl
  · split <;> rfl

/-- A directory above an absolute one is absolute. -/
theorem isAbsolute_of_mem_upward {directory : Path} (hdirectory : directory.isAbsolute = true)
    (h : path ∈ directory.upward) : path.isAbsolute = true := by
  have hstart : ∀ names : List Name, path ∈ Path.upwardFrom directory.start names →
      path.start = directory.start := by
    intro names hmem
    induction names with
    | nil => rw [List.mem_singleton.mp hmem]
    | cons last above ih =>
      rcases List.mem_cons.mp hmem with rfl | hmem
      · rfl
      · exact ih hmem
  unfold Path.isAbsolute at hdirectory ⊢
  rw [hstart _ h]
  exact hdirectory

/-- What follows an alias mark leads into the alias folder: it has a name in it, and it is made of
names alone. -/
structure LeadsInside (rest : Text) : Prop where
  /-- There is more in it than slashes. -/
  exists_ne_slash : ∃ c ∈ rest, c ≠ '/'
  /-- No single dot stands for a name. -/
  no_dot : Path.dot ∉ Text.splitOn '/' rest
  /-- No double dot leads up. -/
  no_dotDot : Path.dotDot ∉ Text.splitOn '/' rest

/-- Every candidate for such a place in the alias folder lies strictly below the folder, if no
ending leads up. -/
theorem isBelow_of_mem_folder (hvalid : conventions.IsValid) (hcwd : cwd.IsNormal)
    (hroot : root.IsClean)
    (hendings : ∀ ending ∈ conventions.extensions, Path.dotDot ∉ Text.splitOn '/' ending)
    (hrelative : (Path.ofText rest).isAbsolute = false) (hrest : LeadsInside rest)
    (h : path ∈ candidates conventions cwd
      (((root.child conventions.aliasFolder).child rest).absolute cwd)) :
    IsBelow ((root.child conventions.aliasFolder).absolute cwd) path := by
  have hnormal := ((hroot.child conventions.aliasFolder).child rest).absolute hcwd
  rw [absolute_child _ cwd hrelative hrest.no_dotDot] at h hnormal
  obtain ⟨outer, last, hnames⟩ := (List.eq_nil_or_concat' (Path.ofText rest).names).resolve_left
    (names_ofText_ne_nil hrest.exists_ne_slash hrest.no_dot)
  rw [hnames, ← List.append_assoc] at h hnormal
  exact (isBelow_of_mem_candidates hnormal hvalid hendings h).of_names_append

end Reference

namespace Traversal

open Reference

section Roots

variable {world : World} {plan : Plan} {session : Session} {history later : History}

/-- The roots that were sought in a history, in order. -/
def rootsSought (history : History) : List (Option Path) :=
  history.filterMap fun
    | .told (.rootSought _ root) => some root
    | _ => none

/-- Where no root is sought, none is added. -/
theorem Passes.rootsSought_eq (h : Passes Exchange.IsOnWay history later) :
    rootsSought later = rootsSought history := by
  refine h.filterMap_eq fun exchange hway => ?_
  match exchange, hway with
  | .holds _ _, _ | .isFile _ _, _ | .readText _ _, _ | .told (.reached _ _), _ |
    .told (.unresolved _ _), _ | .told (.warned _), _ => rfl

/-- A call seeks no root, or an absolute and clean one, if there is one. -/
theorem World.Serves.rootsSought_eq {entry : Text} {answer : Except Trouble (List Path)}
    {next : Session} {steps : List Step}
    (h : world.Serves plan entry session history answer next steps later) :
    rootsSought later = rootsSought history ∨
      ∃ root, (∀ directory ∈ root, directory.isAbsolute = true ∧ directory.IsClean) ∧
        rootsSought later = rootsSought history ++ [root] := by
  have hway {before after : History} (hpasses : Passes Exchange.IsSilent before after) :
      rootsSought after = rootsSought before :=
    Passes.rootsSought_eq (hpasses.mono fun _ => Exchange.IsSilent.isOnWay)
  have hadmitted := hway (admitted_passes history (world.place entry))
  have hsought := hway (world.findRoot_passes plan.conventions (world.place entry)
    (admitted history (world.place entry)))
  cases h with
  | @refused between warning _ _ hpasses =>
    have htold : rootsSought (between ++ [.told (.warned warning)]) = rootsSought between :=
      Passes.rootsSought_eq (Passes.one between trivial)
    exact .inl (htold.trans (hway hpasses))
  | known _ _ => exact .inl hadmitted
  | rootless _ _ hroot =>
    rw [hroot] at hsought
    exact .inl (hsought.trans hadmitted)
  | @searched root asked _ _ _ _ _ hroot hproceeds _ =>
    rw [hroot] at hsought
    refine .inr ⟨root, ?_, ?_⟩
    · rintro directory ⟨⟩
      have hplace : (world.place entry).IsNormal :=
        Path.absolute_ofText_isNormal entry world.cwd_isNormal
      have hmem := List.mem_of_mem_take (firstWhere_found (congrArg Prod.fst hroot)).1
      rw [hplace.absolute_eq] at hmem
      have hparent : (world.place entry).parent.isAbsolute = true := hplace.isAbsolute
      exact ⟨isAbsolute_of_mem_upward hparent hmem,
        findRoot_place_isClean hroot directory rfl⟩
    · rw [hproceeds.passes.rootsSought_eq, rootsSought, List.filterMap_append]
      exact congrArg (· ++ [root]) (hsought.trans hadmitted)

/-- Every root that a session sought and found is absolute and clean. -/
theorem Reached.isAbsolute_of_mem_rootsSought {lists : List (List Path)}
    (h : Reached world plan lists session history) {directory : Path}
    (hmem : some directory ∈ rootsSought history) :
    directory.isAbsolute = true ∧ directory.IsClean := by
  induction h with
  | fresh => cases hmem
  | @step lists session later history after entry answer hbefore hrun ih =>
    obtain ⟨answer', later', steps, after', hserves, hrun'⟩ :=
      follow_serves world plan hbefore.invariant.1 entry history
    rw [hrun] at hrun'
    cases hrun'
    rcases hserves.rootsSought_eq with hsame | ⟨root, hroot, hmore⟩
    · exact ih (hsame ▸ hmem)
    · rw [hmore] at hmem
      rcases List.mem_append.mp hmem with hmem | hmem
      · exact ih hmem
      · exact hroot directory (List.mem_singleton.mp hmem).symm

/-- The root that was sought last in a part of a history was sought in the history. -/
theorem mem_rootsSought_of_sought {before : History} {directory : Path}
    (hwithin : before <+: history) (h : sought before = some directory) :
    some directory ∈ rootsSought history := by
  have hlast : (rootsSought before).getLast?.join = some directory := h
  have hmem : some directory ∈ rootsSought before :=
    List.mem_of_getLast? (Option.join_eq_some_iff.mp hlast)
  exact (hwithin.filterMap _).subset hmem

end Roots

section Accounts

variable {world : World} {conventions : Conventions} {plan : Plan} {session : Session}
  {history later : History} {file : Path} {root : Option Path} {rest : Text}
  {findings : List (Text × Finding)}

/-- What the resolution of a reference comes to if the reference comes to a finding. -/
def Finding.outcome? : Finding → Option (Except Trouble (Option Path))
  | external => none
  | faulty fault => some (.error (.files fault))
  | missing => some (.ok none)
  | leads target => some (.ok (some target))

/-- A reference that came to a finding is not local, or its resolution came to that at some time. -/
theorem World.Examines.outcome?_eq
    (h : world.Examines conventions root file history findings later) {reference : Text}
    {finding : Finding} (hmem : (reference, finding) ∈ findings) :
    (isLocal conventions reference = false ∧ finding = .external) ∨
      (isLocal conventions reference = true ∧ ∃ earlier,
        finding.outcome? = some (world.resolved conventions root file reference earlier)) := by
  have hresolved {reference : Text} {earlier asked : History}
      {outcome : Except Trouble (Option Path)}
      (hrun : (resolve conventions world.surroundings.isFile world.cwd reference file.toText
        root).run.run earlier = (outcome, asked)) :
      some outcome = some (world.resolved conventions root file reference earlier) :=
    congrArg some (congrArg Prod.fst hrun).symm
  induction h with
  | done history => cases hmem
  | external hlocal _ ih =>
    rcases List.mem_cons.mp hmem with hfirst | hmem
    · cases hfirst
      exact .inl ⟨hlocal, rfl⟩
    · exact ih hmem
  | faulty hlocal hrun _ ih =>
    rcases List.mem_cons.mp hmem with hfirst | hmem
    · cases hfirst
      exact .inr ⟨hlocal, _, hresolved hrun⟩
    · exact ih hmem
  | missing hlocal hrun _ ih =>
    rcases List.mem_cons.mp hmem with hfirst | hmem
    · cases hfirst
      exact .inr ⟨hlocal, _, hresolved hrun⟩
    · exact ih hmem
  | leads hlocal hrun _ ih =>
    rcases List.mem_cons.mp hmem with hfirst | hmem
    · cases hfirst
      exact .inr ⟨hlocal, _, hresolved hrun⟩
    · exact ih hmem

/-- Without a root of the project, an alias leads to nothing, or its resolution is misused. -/
theorem World.resolved_rootless (world : World) (conventions : Conventions) (file : Path)
    (rest : Text) (history : History) :
    (∃ cause, world.resolved conventions none file (conventions.aliasMark ++ rest) history =
        .error (.misuse cause)) ∨
      world.resolved conventions none file (conventions.aliasMark ++ rest) history = .ok none := by
  have hplace : place? conventions world.cwd (.ofText file.toText) none
      (conventions.aliasMark ++ rest) = none := by
    unfold place?
    rw [Text.dropLeading?_eq_some_iff.mpr rfl]
    rfl
  unfold World.resolved
  by_cases hfile : file.toText = []
  · rw [resolve, if_pos hfile]
    exact .inl ⟨_, rfl⟩
  · by_cases hreference : conventions.aliasMark ++ rest = []
    · rw [resolve, if_neg hfile, if_pos hreference]
      exact .inl ⟨_, rfl⟩
    · rw [resolve_run hfile hreference, hplace]
      exact .inr rfl

/-- How the books of a session account for an alias in a file, given the root of its project. -/
inductive Session.SettlesAlias (session : Session) (conventions : Conventions) (cwd : Path)
    (root : Option Path) (file : Path) (rest : Text) : Prop
  /-- It is recorded as leading to no file. -/
  | missing : conventions.aliasMark ++ rest ∈ session.graph.missing.get file →
      SettlesAlias session conventions cwd root file rest
  /-- There is a root, and there is one warning about it. -/
  | warned {directory : Path} {fault : Files.Fault} : root = some directory →
      (session.faults file).filter (·.1 = conventions.aliasMark ++ rest) =
        [(conventions.aliasMark ++ rest, fault)] →
      SettlesAlias session conventions cwd root file rest
  /-- There is a root, and it is recorded as leading to a file. If a relative path follows the alias
  mark, the file is a candidate for the place with this path in the alias folder of the root; and
  the file lies strictly below this folder if the path leads inside and no ending leads up. -/
  | leads {directory target : Path} : root = some directory →
      target ∈ session.graph.targets file →
      ((Path.ofText rest).isAbsolute = false →
        target ∈ candidates conventions cwd
          (((directory.child conventions.aliasFolder).child rest).absolute cwd) ∧
        (LeadsInside rest →
          (∀ ending ∈ conventions.extensions, Path.dotDot ∉ Text.splitOn '/' ending) →
          IsBelow ((directory.child conventions.aliasFolder).absolute cwd) target)) →
      SettlesAlias session conventions cwd root file rest

/-- What an alias leads to is a candidate for its place in the alias folder. -/
theorem mem_candidates_of_resolved {directory target : Path}
    (hroot : directory.isAbsolute = true)
    (h : world.resolved conventions (some directory) file (conventions.aliasMark ++ rest) history =
      .ok (some target)) :
    target ∈ candidates conventions world.cwd
      (((directory.child conventions.aliasFolder).child rest).absolute world.cwd) := by
  obtain ⟨place, hplace, hmem⟩ := exists_mem_candidates h
  rw [place?_alias] at hplace
  cases hplace
  have habsolute := isAbsolute_child (isAbsolute_child hroot conventions.aliasFolder) rest
  rwa [collapse_eq_absolute habsolute world.cwd] at hmem

/-- If the books account for what the references of a file came to, they settle its aliases with a
slash. -/
theorem World.Examines.settlesAlias
    (h : world.Examines conventions root file history findings later)
    (haccounts : session.Accounts file findings) (hnodup : (findings.map Prod.fst).Nodup)
    (hvalid : conventions.IsValid)
    (hroot : ∀ directory ∈ root, directory.isAbsolute = true ∧ directory.IsClean)
    (hmem : conventions.aliasMark ++ rest ∈ findings.map Prod.fst)
    (hslash : '/' ∈ conventions.aliasMark ++ rest) :
    session.SettlesAlias conventions world.cwd root file rest := by
  obtain ⟨⟨_, finding⟩, hfinding, rfl⟩ := List.mem_map.mp hmem
  have hlocal :=
    (isLocal_iff_of_isPrefix (List.prefix_append conventions.aliasMark rest)).mpr hslash
  rcases h.outcome?_eq hfinding with ⟨hexternal, -⟩ | ⟨-, earlier, houtcome⟩
  · cases hlocal.symm.trans hexternal
  · cases root with
    | none =>
      -- without a root no candidate is looked at
      rcases world.resolved_rootless conventions file rest earlier with ⟨cause, hmisuse⟩ | hnone
      · rw [hmisuse] at houtcome
        cases finding <;> cases houtcome
      · rw [hnone] at houtcome
        cases finding <;> cases houtcome
        exact .missing ((haccounts.missing _).mpr hfinding)
    | some directory =>
      obtain ⟨habsolute, hclean⟩ := hroot directory rfl
      cases finding with
      | external => cases houtcome
      | missing => exact .missing ((haccounts.missing _).mpr hfinding)
      | faulty fault =>
        have hwarned := faultsOf_filter hnodup hfinding
        rw [← haccounts.warned] at hwarned
        exact .warned rfl hwarned
      | leads target =>
        have hcandidate := mem_candidates_of_resolved habsolute (Option.some.inj houtcome).symm
        refine .leads rfl ((haccounts.targets target).mpr ⟨_, hfinding⟩) fun hrelative => ?_
        exact ⟨hcandidate, fun hrest hendings => isBelow_of_mem_folder hvalid world.cwd_isNormal
          hclean hendings hrelative hrest hcandidate⟩

/-- No alias with a slash is recorded as a package. -/
theorem World.Keeps.not_mem_slash {ledger : List Expansion}
    (h : world.Keeps plan session history ledger) {reference : Text}
    (hexternal : reference ∈ session.graph.external.get file)
    (hmark : plan.conventions.aliasMark <+: reference) : '/' ∉ reference := by
  intro hslash
  obtain ⟨expansion, hexpansion, hfinding⟩ :=
    List.mem_flatMap.mp (((h.accounts file).external reference).mp hexternal)
  have hexamined := (h.expands expansion (List.mem_filter.mp hexpansion).1).examined
  have hlocal := (isLocal_iff_of_isPrefix hmark).mpr hslash
  rcases hexamined.outcome?_eq hfinding with ⟨hother, -⟩ | ⟨-, earlier, houtcome⟩
  · cases hlocal.symm.trans hother
  · cases houtcome

/-- With settings that are accepted, an alias mark is taken for one in every state that a session
comes to. A reference that begins with it is local just if it has a slash, and no such reference is
recorded as a package. In a file that was expanded, those with a slash are settled as aliases, with
the root of the project that was sought last when the file was read, and those without one are
recorded as packages. -/
theorem Reached.aliases_settled {lists : List (List Path)}
    (h : Reached world plan lists session history) {entries : List (Datum × Datum)}
    (hentries : Settings.ofEntries entries = .ok plan.conventions) :
    (∀ reference, plan.conventions.aliasMark <+: reference →
      (isLocal plan.conventions reference = true ↔ '/' ∈ reference)) ∧
    (∀ file, ∀ reference ∈ session.graph.external.get file,
      plan.conventions.aliasMark <+: reference → '/' ∉ reference) ∧
    ∀ file text, Expanded plan history file text →
      ∃ before, before ++ [.readText file (.ok text)] <+: history ∧
        ∀ rest, plan.conventions.aliasMark ++ rest ∈ extract text →
          ('/' ∈ plan.conventions.aliasMark ++ rest →
            session.SettlesAlias plan.conventions world.cwd (sought before) file rest) ∧
          ('/' ∉ plan.conventions.aliasMark ++ rest →
            plan.conventions.aliasMark ++ rest ∈ session.graph.external.get file) := by
  obtain ⟨halign, -, hreads⟩ := h.invariant
  obtain ⟨ledger, hledger⟩ := h.exists_ledger
  have hvalid := Settings.ofEntries_isValid hentries
  refine ⟨fun reference => isLocal_iff_of_isPrefix,
    fun file reference hexternal => hledger.not_mem_slash hexternal, ?_⟩
  intro file text hexpanded
  have hread := hexpanded.read
  rw [hledger.texts_eq] at hread
  obtain ⟨expansion, hmem, heq⟩ := List.mem_map.mp hread
  cases heq
  have haccounts := hledger.accounts expansion.file
  rw [findingsOf_of_mem (hledger.nodup (hreads.nodup halign.nodup)) hmem] at haccounts
  obtain ⟨hwithin, -, hextracted, hexamined⟩ := hledger.expands expansion hmem
  have hnodup : (expansion.findings.map Prod.fst).Nodup := hextracted ▸ nodup_eraseDups _
  have hgrown := hexamined.passes.isPrefix.trans hwithin
  refine ⟨expansion.before, hgrown, fun rest hrest => ?_⟩
  rw [← hextracted] at hrest
  constructor
  · intro hslash
    refine hexamined.settlesAlias haccounts hnodup hvalid ?_ hrest hslash
    intro directory hdirectory
    exact h.isAbsolute_of_mem_rootsSought
      (mem_rootsSought_of_sought ((List.prefix_append _ _).trans hgrown) hdirectory)
  · intro hbare
    obtain ⟨⟨_, finding⟩, hfinding, rfl⟩ := List.mem_map.mp hrest
    rcases hexamined.outcome?_eq hfinding with ⟨-, rfl⟩ | ⟨hlocal, -⟩
    · exact (haccounts.external _).mpr hfinding
    · exact absurd (mem_slash_of_isLocal hlocal) hbare

end Accounts

/-- A text with three aliases, of which the last has no slash. -/
def markedText : Text :=
  "import a from '~a/b';\nimport c from '~gone/c';\nimport d from '~d';".toList

/-- A disk with a file of this text, and with files that its first and its last alias may mean. -/
def marked : Disk := .ofTree
  { root := .directory .ofDirectory [("w".toList, .directory .ofDirectory
      [("package.json".toList, .file .ofFile []),
        ("a.js".toList, .file .ofFile (Utf8.encode markedText)),
        ("lib".toList, .directory .ofDirectory [("d.vue".toList, .file .ofFile []),
          ("a".toList, .directory .ofDirectory [("b.vue".toList, .file .ofFile [])])])])]
    cwd := workplace }
  workplace_isNormal

/-- The plan for an alias mark without a slash. -/
def tildePlan : Plan where
  conventions := tilde

/-- A session on this disk records the last alias as a package. -/
theorem exists_reached_marked :
    ∃ lists session history, Reached marked.world tildePlan lists session history ∧
      Expanded tildePlan history (marked.place "a.js".toList) markedText ∧
      session.graph.external.get (marked.place "a.js".toList) = ["~d".toList] ∧
      session.graph.missing.get (marked.place "a.js".toList) = ["~gone/c".toList] ∧
      session.graph.targets (marked.place "a.js".toList) =
        [marked.place "lib/a/b.vue".toList] := by
  have hfresh : Reached marked.world tildePlan [] {} [] := .fresh
  obtain ⟨answer, session, history, hrun, hreached, -⟩ := hfresh.follow_run "a.js".toList
  have hcall : ∀ call, call =
      (follow marked.world.surroundings tildePlan "a.js".toList {}).run [] →
      ((marked.place "a.js".toList, 0) ∈ reports call.2 ∧
        (marked.place "a.js".toList, markedText) ∈ texts call.2) ∧
      call.1.2.graph.external.get (marked.place "a.js".toList) = ["~d".toList] ∧
      call.1.2.graph.missing.get (marked.place "a.js".toList) = ["~gone/c".toList] ∧
      call.1.2.graph.targets (marked.place "a.js".toList) =
        [marked.place "lib/a/b.vue".toList] := by
    intro call h
    rw [h]
    decide +kernel
  obtain ⟨⟨hreport, htext⟩, hbooks⟩ := hcall ((answer, session), history) hrun.symm
  exact ⟨_, session, history, hreached, ⟨⟨0, hreport, nofun⟩, htext⟩, hbooks⟩

/-- The first alias is settled, and so is the second, which leads to no file. -/
theorem aliases_settled_marked :
    ∃ lists session history before, Reached marked.world tildePlan lists session history ∧
      Settings.ofEntries tildeEntries = .ok tilde ∧
      Expanded tildePlan history (marked.place "a.js".toList) markedText ∧
      session.SettlesAlias tilde marked.cwd (sought before) (marked.place "a.js".toList)
        "a/b".toList ∧
      session.SettlesAlias tilde marked.cwd (sought before) (marked.place "a.js".toList)
        "gone/c".toList ∧
      session.graph.external.get (marked.place "a.js".toList) = ["~d".toList] := by
  have hentries : Settings.ofEntries tildeEntries = .ok tildePlan.conventions := by decide +kernel
  obtain ⟨lists, session, history, hreached, hexpanded, hexternal, -⟩ := exists_reached_marked
  obtain ⟨-, -, hsettled⟩ := hreached.aliases_settled hentries
  obtain ⟨before, -, haliases⟩ := hsettled _ _ hexpanded
  exact ⟨lists, session, history, before, hreached, hentries, hexpanded,
    (haliases "a/b".toList (by decide +kernel)).1 (by decide),
    (haliases "gone/c".toList (by decide +kernel)).1 (by decide), hexternal⟩

/-- A reference that begins with the alias mark may be recorded as a package. -/
theorem exists_alias_external : ¬ ∀ (disk : Disk) (plan : Plan) (entries : List (Datum × Datum))
    (lists : List (List Path)) (session : Session) (history : History),
      Settings.ofEntries entries = .ok plan.conventions →
      Reached disk.world plan lists session history →
      ∀ file reference, plan.conventions.aliasMark <+: reference →
        reference ∉ session.graph.external.get file := by
  intro hall
  obtain ⟨lists, session, history, hreached, -, hexternal, -⟩ := exists_reached_marked
  have hentries : Settings.ofEntries tildeEntries = .ok tildePlan.conventions := by decide +kernel
  refine hall marked tildePlan tildeEntries lists session history hentries hreached
    (marked.place "a.js".toList) "~d".toList ⟨"d".toList, rfl⟩ ?_
  rw [hexternal]
  exact List.mem_cons_self

end Traversal

end SourceLoom
