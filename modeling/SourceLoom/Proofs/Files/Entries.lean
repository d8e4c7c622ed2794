import SourceLoom.Proofs.Files.Writing

/-!
# Entries of directories

A path that leads to a directory, through whatever links, goes on from the place of that directory,
and what the path of an entry leads to is decided by the entries there. So an entry that leads to
anything is one of the names that the directory lists, and whether it is a link can be told as well.
A path that leads to a directory is not too long, and so it has fewer names than a path may have
bytes.
-/

namespace SourceLoom

namespace Utf8

/-- A text has at least as many bytes as characters. -/
theorem length_le_size (text : Text) : text.length ≤ size text := by
  induction text with
  | nil => exact Nat.le_refl 0
  | cons c text ih =>
    have hpos := c.utf8Size_pos
    simp only [size, List.foldr_cons, List.length_cons] at ih ⊢
    omega

end Utf8

namespace Path

/-- Joined names have at least as many characters as there are names, less one slash. -/
theorem length_le_length_join {names : List Name} (h : ∀ name ∈ names, name ≠ []) :
    names.length ≤ (Text.join ['/'] names).length := by
  induction names with
  | nil => exact Nat.le_refl 0
  | cons name names ih =>
    have hname := List.length_pos_of_ne_nil (h name List.mem_cons_self)
    have hrest := ih fun other hother => h other (List.mem_cons_of_mem _ hother)
    cases names with
    | nil => exact hname
    | cons next names =>
      simp only [Text.join, List.length_append, List.length_cons] at hrest ⊢
      omega

/-- The text of a clean path has at least as many characters as the path has names. -/
theorem length_le_length_toText {path : Path} (h : path.IsClean) :
    path.names.length ≤ path.toText.length := by
  have hjoin := length_le_length_join fun name hname => (h name hname).1
  unfold toText
  split
  · rename_i hempty
    rw [hempty.2]
    exact Nat.zero_le _
  · rw [List.length_append]
    omega

end Path

/-- No directory in a node has two entries of one name. -/
inductive Files.Node.Distinct : Node → Prop
  /-- A regular file has no entries. -/
  | file (permissions : Permissions) (bytes : List UInt8) : Distinct (.file permissions bytes)
  /-- A link has no entries. -/
  | link (target : Text) : Distinct (.link target)
  /-- A special file has no entries. -/
  | device (permissions : Permissions) : Distinct (.device permissions)
  /-- The entries of a directory have different names, and so have the entries in them. -/
  | directory {permissions : Permissions} {entries : List (Name × Node)} :
      (entries.map (·.1)).Nodup → (∀ entry ∈ entries, Distinct entry.2) →
        Distinct (.directory permissions entries)

namespace Files.Tree

variable {tree : Tree} {path : Path} {followLast : Bool}

section Steps

variable {onLink : List Name → List Name → Except Cause Target} {place names : List Name}
  {name : Name}

/-- The first of names that lead anywhere is followed in a directory, which can be reached if it is
more than an empty piece. -/
theorem exists_directory_of_walkNames {target : Target}
    (h : tree.walkNames followLast onLink place (name :: names) = .ok target) :
    ∃ permissions entries, tree.root.get? place = some (.directory permissions entries) ∧
      (name ≠ [] → permissions.reach = true ∧ ¬nameLimit < Utf8.size name) := by
  unfold walkNames at h
  split at h
  · cases h
  · rename_i permissions entries hget
    refine ⟨permissions, entries, hget, fun hne => ?_⟩
    rw [if_neg hne] at h
    split at h
    · cases h
    · rename_i hreach
      split at h
      · cases h
      · rename_i hsize
        exact ⟨by simpa using hreach, hsize⟩
  · cases h

/-- An empty piece leads to the directory itself. -/
theorem walkNames_nil {permissions : Permissions} {entries : List (Name × Node)}
    (hget : tree.root.get? place = some (.directory permissions entries)) :
    tree.walkNames followLast onLink place ([] :: names) =
      tree.walkNames followLast onLink place names := by
  rw [walkNames, hget]
  exact if_pos rfl

/-- A single dot leads to the directory itself, if this can be reached. -/
theorem walkNames_dot {permissions : Permissions} {entries : List (Name × Node)}
    (hget : tree.root.get? place = some (.directory permissions entries))
    (hreach : permissions.reach = true) :
    tree.walkNames followLast onLink place (Path.dot :: names) =
      tree.walkNames followLast onLink place names := by
  rw [walkNames, hget]
  dsimp only
  rw [hreach, if_neg (by decide), if_neg (by decide), if_neg (by decide), if_pos rfl]

/-- Where a name leads from a directory that can be reached. -/
theorem walkNames_directory {permissions : Permissions} {entries : List (Name × Node)}
    (hget : tree.root.get? place = some (.directory permissions entries))
    (hreach : permissions.reach = true) (hsize : ¬nameLimit < Utf8.size name)
    (hne : name ≠ []) (hdot : name ≠ Path.dot) (hup : name ≠ Path.dotDot) (followLast : Bool)
    (onLink : List Name → List Name → Except Cause Target) (names : List Name) :
    tree.walkNames followLast onLink place (name :: names) =
      match entries.lookup name with
      | none => if names = [] then .ok (.absent place name) else .error .notFound
      | some (.link text) =>
        if names = [] ∧ !followLast then .ok (.found (place ++ [name]) (.link text))
        else onLink (if (Path.ofText text).isAbsolute then [] else place)
          (Text.splitOn '/' text ++ names)
      | some _ => tree.walkNames followLast onLink (place ++ [name]) names := by
  rw [walkNames, hget]
  dsimp only
  rw [hreach, if_neg hne]
  exact (if_neg (by decide)).trans
    ((if_neg hsize).trans ((if_neg hdot).trans (if_neg hup)))

/-- Where a double dot leads from a directory that can be reached. -/
theorem walkNames_dotDot {permissions : Permissions} {entries : List (Name × Node)}
    (hget : tree.root.get? place = some (.directory permissions entries))
    (hreach : permissions.reach = true) :
    tree.walkNames followLast onLink place (Path.dotDot :: names) =
      tree.walkNames followLast onLink place.dropLast names := by
  rw [walkNames, hget]
  dsimp only
  rw [hreach, if_neg (by decide), if_neg (by decide), if_neg (by decide), if_neg (by decide),
    if_pos rfl]

/-- Where the first of names that lead to a node leads, whatever comes after it: to another place,
or to the target of a link. -/
theorem walkNames_cons_cases {found : List Name} {node : Node}
    (h : tree.walkNames true onLink place (name :: names) = .ok (.found found node)) :
    (∃ next, ∀ followLast onLink more, tree.walkNames followLast onLink place (name :: more) =
        tree.walkNames followLast onLink next more) ∨
      ∃ next target, ∀ followLast onLink more, (followLast = true ∨ more ≠ []) →
        tree.walkNames followLast onLink place (name :: more) = onLink next (target ++ more) := by
  obtain ⟨permissions, entries, hget, hopen⟩ := exists_directory_of_walkNames h
  by_cases hne : name = []
  · subst hne
    exact Or.inl ⟨place, fun _ _ _ => walkNames_nil hget⟩
  obtain ⟨hreach, hsize⟩ := hopen hne
  by_cases hdot : name = Path.dot
  · subst hdot
    exact Or.inl ⟨place, fun _ _ _ => walkNames_dot hget hreach⟩
  by_cases hup : name = Path.dotDot
  · subst hup
    exact Or.inl ⟨place.dropLast, fun _ _ _ => walkNames_dotDot hget hreach⟩
  · have hstep := walkNames_directory hget hreach hsize hne hdot hup
    cases hlookup : entries.lookup name with
    | none =>
      rw [hstep, hlookup] at h
      dsimp only at h
      split at h <;> cases h
    | some inner =>
      simp only [hlookup] at hstep
      cases inner with
      | link text =>
        refine Or.inr ⟨if (Path.ofText text).isAbsolute then [] else place,
          Text.splitOn '/' text, fun followLast onLink more hmore => ?_⟩
        have hfollowed : ¬(more = [] ∧ (!followLast) = true) := by
          rintro ⟨hnil, hlast⟩
          rcases hmore with rfl | hmore
          · cases hlast
          · exact hmore hnil
        exact (hstep followLast onLink more).trans (if_neg hfollowed)
      | file rights bytes => exact Or.inl ⟨place ++ [name], hstep⟩
      | directory rights others => exact Or.inl ⟨place ++ [name], hstep⟩
      | device rights => exact Or.inl ⟨place ++ [name], hstep⟩

end Steps

/-- Names that were followed lead on from a place: a node is there, and some number of links may
still be followed. -/
def LeadsOn (tree : Tree) (follow : Bool → List Name → List Name → Except Cause Target)
    (start names place : List Name) (node : Node) : Prop :=
  tree.root.get? place = some node ∧ ∃ left, ∀ followLast name more,
    follow followLast start (names ++ name :: more) = tree.walk followLast left place (name :: more)

/-- Names that lead to a node lead on from its place, if those at the target of every link do. -/
theorem leadsOn_of_walkNames {onLink : Bool → List Name → List Name → Except Cause Target}
    {links : Nat} {start names place : List Name} {node : Node}
    (hwalk : ∀ followLast,
      tree.walk followLast links = tree.walkNames followLast (onLink followLast))
    (hlink : ∀ {start names}, onLink true start names = .ok (.found place node) →
      tree.LeadsOn onLink start names place node)
    (h : tree.walk true links start names = .ok (.found place node)) :
    tree.LeadsOn (fun followLast => tree.walk followLast links) start names place node := by
  induction names generalizing start with
  | nil =>
    rw [hwalk, walkNames] at h
    split at h
    · rename_i found hget
      cases h
      exact ⟨hget, links, fun _ _ _ => rfl⟩
    · cases h
  | cons first names ih =>
    rw [hwalk] at h
    rcases walkNames_cons_cases h with ⟨next, hnext⟩ | ⟨next, target, htarget⟩
    · rw [hnext, ← hwalk] at h
      obtain ⟨hget, left, hleft⟩ := ih h
      refine ⟨hget, left, fun followLast name more => ?_⟩
      rw [← hleft, List.cons_append]
      dsimp only
      rw [hwalk, hnext]
    · rw [htarget _ _ _ (Or.inl rfl)] at h
      obtain ⟨hget, left, hleft⟩ := hlink h
      refine ⟨hget, left, fun followLast name more => ?_⟩
      rw [← hleft, List.cons_append]
      dsimp only
      rw [hwalk, htarget _ _ _ (Or.inr (by simp)), List.append_assoc]

/-- Names that lead to a node lead on from its place. -/
theorem leadsOn_of_walk {links : Nat} {start names place : List Name} {node : Node}
    (h : tree.walk true links start names = .ok (.found place node)) :
    tree.LeadsOn (fun followLast => tree.walk followLast links) start names place node := by
  induction links generalizing start names with
  | zero => exact leadsOn_of_walkNames (fun _ => rfl) nofun h
  | succ links ih => exact leadsOn_of_walkNames (fun _ => rfl) ih h

/-- What an absolute path leads to is found along its names, if nothing is wrong with its spelling.
-/
theorem locate_of_isAbsolute (hpath : path.isAbsolute = true) :
    tree.locate followLast path =
      match spellingFault? path with
      | some fault => .error fault
      | none =>
        match tree.walk followLast linkLimit [] path.names with
        | .ok target => .ok target
        | .error cause => .error (.failed cause path) := by
  unfold locate spellingFault?
  rw [start?_of_isAbsolute hpath]
  split
  · rfl
  · split <;> rfl

/-- The node that an absolute path leads to is found along its names, and nothing is wrong with the
spelling of the path. -/
theorem node_eq_ok_iff (hpath : path.isAbsolute = true) {node : Node} :
    tree.node followLast path = .ok node ↔ spellingFault? path = none ∧
      ∃ place, tree.walk followLast linkLimit [] path.names = .ok (.found place node) := by
  unfold Tree.node
  rw [locate_of_isAbsolute hpath]
  cases spellingFault? path with
  | some fault => exact ⟨nofun, nofun⟩
  | none =>
    cases tree.walk followLast linkLimit [] path.names with
    | error cause => exact ⟨nofun, nofun⟩
    | ok target =>
      cases target with
      | found place other =>
        constructor
        · rintro ⟨⟩
          exact ⟨rfl, place, rfl⟩
        · rintro ⟨-, place, ⟨⟩⟩
          rfl
      | absent parent name => exact ⟨nofun, nofun⟩

/-- A path that leads to a node has fewer names than a path may have bytes. -/
theorem length_names_lt (hpath : path.IsNormal) {node : Node}
    (h : tree.node followLast path = .ok node) : path.names.length < pathLimit := by
  obtain ⟨hspelling, -⟩ := (node_eq_ok_iff hpath.isAbsolute).mp h
  have hsize : ¬pathLimit ≤ Utf8.size path.toText := by
    intro hlong
    unfold spellingFault? at hspelling
    split at hspelling
    · cases hspelling
    · cases hspelling
  have hnames := Path.length_le_length_toText hpath.isClean
  have htext := Utf8.length_le_size path.toText
  omega

/-- The node that a path leads to is somewhere in the tree. -/
theorem exists_get?_of_node {node : Node} (h : tree.node true path = .ok node) :
    ∃ place, tree.root.get? place = some node := by
  unfold Tree.node at h
  cases hlocate : tree.locate true path with
  | error fault =>
    rw [hlocate] at h
    cases h
  | ok target =>
    rw [hlocate] at h
    cases target with
    | absent parent name => cases h
    | found place other =>
      cases h
      unfold locate at hlocate
      split at hlocate
      · cases hlocate
      · split at hlocate
        · cases hlocate
        · split at hlocate
          · cases hlocate
          · split at hlocate
            · rename_i target hwalk
              cases hlocate
              exact ⟨place, (leadsOn_of_walk hwalk).1⟩
            · cases hlocate

section Entry

variable {permissions : Permissions} {entries : List (Name × Node)} {name : Name}

/-- The path of an entry that leads to a node leads there through the entry of that name, which may
be a link to it. -/
theorem exists_lookup_of_node (hpath : path.isAbsolute = true)
    (hdirectory : tree.node true path = .ok (.directory permissions entries))
    (hname : Path.IsName name) {node : Node}
    (h : tree.node true (path.entry name) = .ok node) :
    ∃ inner, entries.lookup name = some inner ∧
      tree.node false (path.entry name) = .ok inner := by
  have hentry : (path.entry name).isAbsolute = true := hpath
  obtain ⟨-, place, hwalk⟩ := (node_eq_ok_iff hpath).mp hdirectory
  obtain ⟨hget, left, hleft⟩ := leadsOn_of_walk hwalk
  obtain ⟨hspelling, found, hfound⟩ := (node_eq_ok_iff hentry).mp h
  obtain ⟨onLink, honLink⟩ : ∃ onLink : Bool → List Name → List Name → Except Cause Target,
      ∀ followLast, tree.walk followLast left = tree.walkNames followLast (onLink followLast) := by
    cases left with
    | zero => exact ⟨fun _ _ _ => .error .tooManyLinks, fun _ => rfl⟩
    | succ left => exact ⟨fun followLast => tree.walk followLast left, fun _ => rfl⟩
  have hlast (followLast : Bool) : tree.walk followLast linkLimit [] (path.entry name).names =
      tree.walkNames followLast (onLink followLast) place [name] := by
    rw [← honLink]
    exact hleft followLast name []
  rw [hlast] at hfound
  obtain ⟨hne, hdot, hup, -⟩ := hname
  obtain ⟨rights, others, hsame, hopen⟩ := exists_directory_of_walkNames hfound
  obtain ⟨hreach, hsize⟩ := hopen hne
  cases hget.symm.trans hsame
  rw [walkNames_directory hget hreach hsize hne hdot hup] at hfound
  cases hlookup : entries.lookup name with
  | none =>
    rw [hlookup] at hfound
    cases hfound
  | some inner =>
    refine ⟨inner, rfl, (node_eq_ok_iff hentry).mpr ⟨hspelling, place ++ [name], ?_⟩⟩
    have hinner : tree.root.get? (place ++ [name]) = some inner := by
      rw [Node.get?_concat hget, hlookup]
    rw [hlast, walkNames_directory hget hreach hsize hne hdot hup, hlookup]
    cases inner with
    | link text => rfl
    | file rights bytes =>
      dsimp only
      rw [walkNames, hinner]
    | directory rights others =>
      dsimp only
      rw [walkNames, hinner]
    | device rights =>
      dsimp only
      rw [walkNames, hinner]

end Entry

/-- Listing succeeds for the directories that may be read. -/
theorem list_eq_ok_iff {names : List Name} :
    tree.list path = .ok names ↔ ∃ permissions entries, permissions.read = true ∧
      tree.node true path = .ok (.directory permissions entries) ∧ names = entries.map (·.1) := by
  unfold list
  cases hnode : tree.node true path with
  | error fault => exact ⟨nofun, nofun⟩
  | ok node =>
    cases node with
    | file permissions bytes => exact ⟨nofun, nofun⟩
    | link target => exact ⟨nofun, nofun⟩
    | device permissions => exact ⟨nofun, nofun⟩
    | directory permissions entries =>
      dsimp only [bind, Except.bind]
      split
      · rename_i hread
        constructor
        · rintro ⟨⟩
          exact ⟨permissions, entries, hread, rfl, rfl⟩
        · rintro ⟨_, _, -, ⟨⟩, rfl⟩
          rfl
      · rename_i hread
        constructor
        · rintro ⟨⟩
        · rintro ⟨_, _, hreadable, ⟨⟩, -⟩
          exact absurd hreadable hread

/-- A directory can be listed or its permissions forbid it. -/
theorem list_cases (h : tree.isDirectory path = .ok true) :
    (∃ names, tree.list path = .ok names) ∨ tree.list path = .error (.failed .denied path) := by
  obtain ⟨node, hnode, hkind⟩ := exists_node_of_leadsTo h
  cases node with
  | file permissions bytes => cases hkind
  | link target => cases hkind
  | device permissions => cases hkind
  | directory permissions entries =>
    unfold list
    rw [hnode]
    dsimp only [bind, Except.bind]
    split
    · exact Or.inl ⟨_, rfl⟩
    · exact Or.inr rfl

/-- What can be listed is a directory. -/
theorem isDirectory_of_list {names : List Name} (h : tree.list path = .ok names) :
    tree.isDirectory path = .ok true := by
  obtain ⟨permissions, entries, -, hnode, -⟩ := list_eq_ok_iff.mp h
  unfold isDirectory leadsTo
  rw [hnode]
  rfl

/-- An entry that leads to anything is listed, and whether it is a link can be told. -/
theorem mem_list_of_leadsTo {names : List Name} {name : Name} (hpath : path.isAbsolute = true)
    (hlist : tree.list path = .ok names) (hname : Path.IsName name) {property : Node → Bool}
    (h : tree.leadsTo true property (path.entry name) = .ok true) :
    name ∈ names ∧ ∃ isLink, tree.isLink (path.entry name) = .ok isLink := by
  obtain ⟨permissions, entries, -, hdirectory, rfl⟩ := list_eq_ok_iff.mp hlist
  obtain ⟨node, hnode, -⟩ := exists_node_of_leadsTo h
  obtain ⟨inner, hlookup, hinner⟩ := exists_lookup_of_node hpath hdirectory hname hnode
  refine ⟨?_, inner.isLink, ?_⟩
  · obtain ⟨before, after, rfl, -⟩ := List.lookup_eq_some_iff.mp hlookup
    exact List.mem_map_of_mem (List.mem_append_right _ List.mem_cons_self)
  · unfold isLink leadsTo
    rw [hinner]

/-- A path that can be examined for one property of nodes can be examined for every other. -/
theorem exists_leadsTo {property : Node → Bool} {answer : Bool}
    (h : tree.leadsTo followLast property path = .ok answer) (other : Node → Bool) :
    ∃ answer, tree.leadsTo followLast other path = .ok answer := by
  unfold leadsTo at h ⊢
  cases hnode : tree.node followLast path with
  | ok node => exact ⟨other node, rfl⟩
  | error fault =>
    rw [hnode] at h
    cases fault with
    | nullInPath => exact ⟨false, rfl⟩
    | failed cause place =>
      dsimp only at h ⊢
      split at h
      · rename_i hcause
        exact ⟨false, if_pos hcause⟩
      · cases h

/-- A directory is no regular file. -/
theorem isFile_of_isDirectory (h : tree.isDirectory path = .ok true) :
    tree.isFile path = .ok false := by
  obtain ⟨node, hnode, hkind⟩ := exists_node_of_leadsTo h
  unfold isFile leadsTo
  rw [hnode]
  cases node with
  | file permissions bytes => cases hkind
  | directory permissions entries => rfl
  | link target => rfl
  | device permissions => rfl

end Files.Tree

end SourceLoom
