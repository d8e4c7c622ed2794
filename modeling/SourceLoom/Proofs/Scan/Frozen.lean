import SourceLoom.Proofs.Files.Writing
import SourceLoom.Proofs.Scan.Gathering
import SourceLoom.Proofs.Text.Order

/-!
# Scanning a tree that stays as it is

A file tree that nobody changes answers every question at once, so a scan of it is no more than a
list of files or a fault. In a tree without links, the scanned files are regular files with normal
paths.
-/

namespace SourceLoom.Files

namespace Node

/-- Every entry of every directory in a node has a name that an entry can have. -/
inductive WellNamed : Node → Prop
  /-- A regular file has no entries. -/
  | file (permissions : Permissions) (bytes : List UInt8) : WellNamed (.file permissions bytes)
  /-- A link has no entries. -/
  | link (target : Text) : WellNamed (.link target)
  /-- A special file has no entries. -/
  | device (permissions : Permissions) : WellNamed (.device permissions)
  /-- The entries of a directory have such names, and so have the entries in them. -/
  | directory {permissions : Permissions} {entries : List (Name × Node)} :
      (∀ entry ∈ entries, Path.IsName entry.1) → (∀ entry ∈ entries, WellNamed entry.2) →
        WellNamed (.directory permissions entries)

/-- What names lead to in a node whose entries are well named has well named entries. -/
theorem WellNamed.of_follow {node inner : Node} {names : List Name} (h : node.WellNamed)
    (hfollow : node.follow names = .ok (some inner)) : inner.WellNamed := by
  induction names generalizing node with
  | nil =>
    cases hfollow
    exact h
  | cons name names ih =>
    cases h with
    | file permissions bytes => cases hfollow
    | link target => cases hfollow
    | device permissions => cases hfollow
    | @directory permissions entries hnames hall =>
      rw [follow] at hfollow
      split at hfollow
      · cases hfollow
      · split at hfollow
        · cases hfollow
        · cases hlookup : entries.lookup name with
          | none =>
            rw [hlookup] at hfollow
            dsimp only at hfollow
            split at hfollow <;> cases hfollow
          | some next =>
            rw [hlookup] at hfollow
            obtain ⟨before, after, rfl, -⟩ := List.lookup_eq_some_iff.mp hlookup
            exact ih (hall (name, next) (List.mem_append_right _ List.mem_cons_self)) hfollow

end Node

namespace Tree

/-- A file tree that answers as it is, whatever is written. -/
def frozen (tree : Tree) : System Id where
  holds path := tree.holds path
  isFile path := tree.isFile path
  isDirectory path := tree.isDirectory path
  isLink path := tree.isLink path
  list path := tree.list path
  read path := tree.read path
  write path bytes := (tree.store path bytes).map (·.2)

variable {tree : Tree} {path : Path}

/-- The names in a directory are names that an entry can have. -/
theorem isName_of_list (hlinks : tree.root.LinkFree) (hnames : tree.root.WellNamed)
    (hpath : path.IsNormal) {names : List Name} (h : tree.list path = .ok names) :
    ∀ name ∈ names, Path.IsName name := by
  unfold list at h
  rw [node_eq_follow hlinks hpath] at h
  cases hspelling : spellingFault? path with
  | some fault =>
    rw [hspelling] at h
    cases h
  | none =>
    rw [hspelling] at h
    cases hfollow : tree.root.follow path.names with
    | error cause =>
      rw [hfollow] at h
      cases h
    | ok found =>
      rw [hfollow] at h
      cases found with
      | none => cases h
      | some node =>
        have hnode := hnames.of_follow hfollow
        dsimp only [bind, Except.bind] at h
        cases hnode with
        | file permissions bytes => cases h
        | link target => cases h
        | device permissions => cases h
        | directory hproper hall =>
          dsimp only at h
          split at h
          · cases h
            intro name hname
            obtain ⟨entry, hentry, rfl⟩ := List.mem_map.mp hname
            exact hproper entry hentry
          · cases h

end Tree

end SourceLoom.Files

namespace SourceLoom.Scan

open Files

/-- What a scan does with an entry of a directory: it goes on below a directory that is neither
excluded nor a link, and keeps a regular file. -/
def visit {m : Type → Type} [Monad m] (files : System m) (excluded : List Name) (levels : Nat)
    (name : Name) (path : Path) : ExceptT Fault m (List Path) := do
  if ← files.isDirectory path then
    if name ∈ excluded then return []
    if ← files.isLink path then return []
    filesBelow files excluded levels path
  else if ← files.isFile path then return [path]
  else return []

variable {tree : Tree} {excluded : List Name} {levels : Nat} {directory : Path}

/-- A scan visits the entries of a directory in their order, if it may list them. -/
theorem filesBelow_succ :
    filesBelow tree.frozen excluded (levels + 1) directory =
      match tree.list directory with
      | .error (.failed .denied _) => pure []
      | .error fault => throw fault
      | .ok names => gather (visit tree.frozen excluded levels) directory (Text.sort names) := by
  rw [filesBelow]
  rfl

section Visit

variable {after : Tree} {name : Name} {path : Path}

/-- An entry that is no directory is kept if it is a regular file. -/
theorem visit_of_isDirectory_eq_false (hdirectory : tree.isDirectory path = .ok false)
    {isFile : Bool} (hfile : tree.isFile path = .ok isFile) :
    visit tree.frozen excluded levels name path = pure (if isFile then [path] else []) := by
  have hdirectory : tree.frozen.isDirectory path = pure false := hdirectory
  have hfile : tree.frozen.isFile path = pure isFile := hfile
  unfold visit
  rw [hdirectory, hfile]
  cases isFile <;> rfl

/-- A directory is gone down to if it is neither excluded nor a link. -/
theorem visit_of_isDirectory_eq_true (hdirectory : tree.isDirectory path = .ok true)
    {isLink : Bool} (hlink : tree.isLink path = .ok isLink) :
    visit tree.frozen excluded levels name path =
      if name ∈ excluded then pure []
      else if isLink then pure []
      else filesBelow tree.frozen excluded levels path := by
  have hdirectory : tree.frozen.isDirectory path = pure true := hdirectory
  have hlink : tree.frozen.isLink path = pure isLink := hlink
  unfold visit
  rw [hdirectory, hlink]
  rfl

/-- An entry that cannot be examined fails. -/
theorem visit_of_isDirectory_eq_error {fault : Fault}
    (hdirectory : tree.isDirectory path = .error fault) :
    visit tree.frozen excluded levels name path = throw fault := by
  have hdirectory : tree.frozen.isDirectory path = throw fault := hdirectory
  unfold visit
  rw [hdirectory]
  rfl

/-- An entry of two trees that answer the same about it gives the same files but for some that are
left out, if the scans below it do. -/
theorem filter_visit_congr {keep : Path → Bool}
    (hdirectory : after.isDirectory path = tree.isDirectory path)
    (hlink : after.isLink path = tree.isLink path) (hfile : after.isFile path = tree.isFile path)
    (hbelow : tree.isDirectory path = .ok true →
      (·.filter keep) <$> filesBelow after.frozen excluded levels path =
        (·.filter keep) <$> filesBelow tree.frozen excluded levels path) :
    (·.filter keep) <$> visit after.frozen excluded levels name path =
      (·.filter keep) <$> visit tree.frozen excluded levels name path := by
  have hdirectory : after.frozen.isDirectory path = tree.frozen.isDirectory path := hdirectory
  have hlink : after.frozen.isLink path = tree.frozen.isLink path := hlink
  have hfile : after.frozen.isFile path = tree.frozen.isFile path := hfile
  unfold visit
  rw [hdirectory, hlink, hfile]
  cases hanswer : tree.isDirectory path with
  | error fault =>
    have hthrow : tree.frozen.isDirectory path = throw fault := hanswer
    have hends (f : Bool → ExceptT Fault Id (List Path)) :
        (throw fault >>= f : ExceptT Fault Id (List Path)) = throw fault := rfl
    rw [hthrow, hends, hends]
  | ok answer =>
    have hfrozen : tree.frozen.isDirectory path = pure answer := hanswer
    rw [hfrozen, pure_bind, pure_bind]
    cases answer with
    | false => rw [if_neg Bool.false_ne_true, if_neg Bool.false_ne_true]
    | true =>
      have hbelow := hbelow hanswer
      simp only [if_true]
      split
      · rfl
      · simp only [map_bind]
        congr 1
        funext isLink
        cases isLink with
        | true => rfl
        | false => exact hbelow

end Visit

section Mirrored

variable {σ : Type} {files : System (StateM σ)} {state : σ}

/-- In a state a file system answers the questions of a scan as a tree does, and stays in that
state. -/
structure Mirrors (files : System (StateM σ)) (state : σ) (tree : Tree) : Prop where
  /-- It knows the directories of the tree. -/
  isDirectory : ∀ path, (files.isDirectory path).run.run state = (tree.isDirectory path, state)
  /-- It knows the links of the tree. -/
  isLink : ∀ path, (files.isLink path).run.run state = (tree.isLink path, state)
  /-- It knows the regular files of the tree. -/
  isFile : ∀ path, (files.isFile path).run.run state = (tree.isFile path, state)
  /-- It lists the directories of the tree. -/
  list : ∀ path, (files.list path).run.run state = (tree.list path, state)

/-- A file tree answers as it is. -/
theorem mirrors_system (tree : Tree) : Mirrors Tree.system tree tree where
  isDirectory _ := rfl
  isLink _ := rfl
  isFile _ := rfl
  list _ := rfl

/-- What goes on from an answer goes on in the same state. -/
theorem run_bind_of_run {α β : Type} {x : ExceptT Fault (StateM σ) α} {answer : ExceptT Fault Id α}
    (hx : x.run.run state = (answer, state)) {f : α → ExceptT Fault (StateM σ) β}
    {next : α → ExceptT Fault Id β} (hf : ∀ a, (f a).run.run state = (next a, state)) :
    (x >>= f).run.run state = (answer >>= next, state) := by
  rw [ExceptT.run_bind, StateT.run_bind, hx]
  cases answer with
  | error fault => rfl
  | ok a => exact hf a

/-- What depends on something known goes on in the same state. -/
theorem run_ite_of_run {α : Type} {p : Prop} [Decidable p] {x y : ExceptT Fault (StateM σ) α}
    {answer other : ExceptT Fault Id α} (hx : x.run.run state = (answer, state))
    (hy : y.run.run state = (other, state)) :
    (if p then x else y).run.run state = (if p then answer else other, state) := by
  split
  · exact hx
  · exact hy

/-- Files are gathered as from the tree, if every entry is visited as in the tree. -/
theorem run_gather {visit : Name → Path → ExceptT Fault (StateM σ) (List Path)}
    {answer : Name → Path → ExceptT Fault Id (List Path)}
    (h : ∀ name path, (visit name path).run.run state = (answer name path, state))
    (names : List Name) :
    (gather visit directory names).run.run state = (gather answer directory names, state) := by
  induction names with
  | nil => rfl
  | cons name names ih =>
    exact run_bind_of_run (h name _) fun here => run_bind_of_run ih fun more => rfl

/-- A scan finds what it finds in the tree. -/
theorem Mirrors.run_filesBelow (h : Mirrors files state tree) (excluded : List Name) (levels : Nat)
    (directory : Path) :
    (filesBelow files excluded levels directory).run.run state =
      (filesBelow tree.frozen excluded levels directory, state) := by
  induction levels generalizing directory with
  | zero => rfl
  | succ levels ih =>
    have hvisit (name : Name) (path : Path) :
        (visit files excluded levels name path).run.run state =
          (visit tree.frozen excluded levels name path, state) :=
      run_bind_of_run (h.isDirectory path) fun _ => run_ite_of_run
        (run_ite_of_run rfl (run_bind_of_run (h.isLink path) fun _ => run_ite_of_run rfl (ih path)))
        (run_bind_of_run (h.isFile path) fun _ => run_ite_of_run rfl rfl)
    have hlist : (Files.attempt (files.list directory)).run.run state =
        ((pure (tree.list directory) : ExceptT Fault Id (Except Fault (List Name))), state) := by
      change (Except.ok ((files.list directory).run.run state).1,
        ((files.list directory).run.run state).2) = _
      rw [h.list]
      rfl
    refine run_bind_of_run hlist fun answer => ?_
    cases answer with
    | error fault =>
      cases fault with
      | nullInPath => rfl
      | failed cause path => cases cause <;> rfl
    | ok names => exact run_gather hvisit (Text.sort names)

end Mirrored

end SourceLoom.Scan
