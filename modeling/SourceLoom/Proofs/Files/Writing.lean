import SourceLoom.Proofs.Files.Following

/-!
# What writing changes

Writing a file that has no second name, in a tree without links, puts it at the place that its
normal path spells. It changes what is there, and the names in its directory if the file is new. No
other path leads to anything else than before, and writing the same bytes again changes nothing.
Writing to a special file changes nothing at all.
-/

namespace SourceLoom.Files

/-- What is wrong with a path whatever the tree is, if anything. -/
def spellingFault? (path : Path) : Option Fault :=
  if '\x00' ∈ path.toText then some .nullInPath
  else if pathLimit ≤ Utf8.size path.toText then some (.failed .nameTooLong path)
  else none

/-- What names lead to from a place, by what following them gives. -/
def Target.ofFollowed (place names : List Name) : Option Node → Target
  | some node => .found (place ++ names) node
  | none => .absent (place ++ names.dropLast) (names.getLastD [])

namespace Tree

variable {tree after : Tree} {path file : Path} {bytes : List UInt8} {followLast : Bool}

/-- Walking along names is following them. -/
theorem walkNames_eq_follow (hlinks : tree.root.LinkFree)
    {onLink : List Name → List Name → Except Cause Target} {place names : List Name} {node : Node}
    (hplace : tree.root.get? place = some node)
    (hclean : ∀ name ∈ names, name ≠ [] ∧ name ≠ Path.dot ∧ '/' ∉ name)
    (hup : Path.dotDot ∉ names) :
    tree.walkNames followLast onLink place names =
      (node.follow names).map (Target.ofFollowed place names) := by
  induction names generalizing place node with
  | nil =>
    rw [walkNames, hplace]
    simp [Node.follow, Except.map, Target.ofFollowed]
  | cons name names ih =>
    rw [List.mem_cons, not_or] at hup
    obtain ⟨hname, hnames⟩ := hup
    obtain ⟨⟨hne, hdot, -⟩, hclean⟩ := List.forall_mem_cons.mp hclean
    have hlinked := hlinks.of_get hplace
    unfold walkNames Node.follow
    rw [hplace]
    cases hlinked with
    | file permissions bytes => rfl
    | device permissions => rfl
    | @directory permissions entries hall =>
      dsimp only
      rw [if_neg hne]
      split
      · rfl
      · split
        · rfl
        · rw [if_neg (Ne.symm hname)]
          cases hlookup : entries.lookup name with
          | none =>
            dsimp only
            split
            · rename_i hnil
              rw [hnil]
              simp [Except.map, Target.ofFollowed]
            · rfl
          | some inner =>
            have hget : tree.root.get? (place ++ [name]) = some inner := by
              rw [Node.get?_append, hplace, Option.bind_some, Node.get?, Node.entry?, hlookup]
              rfl
            have hmore : (inner.follow names).map (Target.ofFollowed (place ++ [name]) names) =
                (inner.follow names).map (Target.ofFollowed place (name :: names)) := by
              cases names with
              | nil => simp [Node.follow, Except.map, Target.ofFollowed]
              | cons next names =>
                congr 1
                funext found
                cases found <;> simp [Target.ofFollowed]
            cases hlinks.of_get hget with
            | file rights bytes => exact (ih hget hclean hnames).trans hmore
            | device rights => exact (ih hget hclean hnames).trans hmore
            | directory hall => exact (ih hget hclean hnames).trans hmore

/-- Where a normal path leads, if there is nothing wrong with its spelling. -/
theorem locate_eq_follow (hlinks : tree.root.LinkFree) (hpath : path.IsNormal) :
    tree.locate followLast path =
      match spellingFault? path with
      | some fault => .error fault
      | none =>
        match tree.root.follow path.names with
        | .ok found => .ok (.ofFollowed [] path.names found)
        | .error cause => .error (.failed cause path) := by
  have hwalk : tree.walk followLast linkLimit [] path.names =
      (tree.root.follow path.names).map (Target.ofFollowed [] path.names) :=
    walkNames_eq_follow hlinks rfl hpath.isClean hpath.noDotDot
  unfold locate spellingFault?
  rw [start?_of_isAbsolute hpath.isAbsolute]
  dsimp only
  rw [hwalk]
  split
  · rfl
  · split
    · rfl
    · cases tree.root.follow path.names <;> rfl

/-- The node that a normal path leads to. -/
theorem node_eq_follow (hlinks : tree.root.LinkFree) (hpath : path.IsNormal) :
    tree.node followLast path =
      match spellingFault? path with
      | some fault => .error fault
      | none =>
        match tree.root.follow path.names with
        | .ok (some node) => .ok node
        | .ok none => .error (.failed .notFound path)
        | .error cause => .error (.failed cause path) := by
  unfold node
  rw [locate_eq_follow hlinks hpath]
  cases spellingFault? path with
  | some fault => rfl
  | none =>
    cases tree.root.follow path.names with
    | error cause => rfl
    | ok found => cases found <;> rfl

/-- The file at a place, if there is one, has no other name. -/
def IsSingle (tree : Tree) (place : List Name) : Prop :=
  ∀ name ∈ (tree.record place).names, name = place

/-- A file without a second name changes at its place alone. -/
theorem IsSingle.setFile_eq {place : List Name} (h : tree.IsSingle place)
    (permissions : Permissions) (bytes : List UInt8) :
    tree.setFile place permissions bytes =
      { tree with root := tree.root.set place (.file permissions bytes) } := by
  have hnone : (tree.record place).names.filter (fun other =>
      other ≠ place ∧ (tree.root.get? other).any Node.isFile) = [] := by
    refine List.filter_eq_nil_iff.mpr fun other hother hkept => ?_
    exact (of_decide_eq_true hkept).1 (h other hother)
  rw [setFile, placesOf, hnone]
  rfl

/-- What writing a regular file at a normal path did, if it succeeded. -/
structure Writes (tree : Tree) (file : Path) (bytes : List UInt8) (after : Tree) : Prop where
  /-- There is nothing wrong with the spelling of the path. -/
  spelling : spellingFault? file = none
  /-- A file could be there. -/
  takesFile : tree.root.TakesFile file.names
  /-- It is there now, and may be written again. -/
  after_eq : ∃ permissions : Permissions, permissions.write = true ∧
    after = { tree with root := tree.root.set file.names (.file permissions bytes) }

/-- Writing that succeeds puts the bytes where the path spells, or changes nothing. -/
theorem writes_of_write (hlinks : tree.root.LinkFree) (hfile : file.IsNormal)
    (hsingle : tree.IsSingle file.names) (h : tree.write file bytes = .ok after) :
    after = tree ∨ tree.Writes file bytes after := by
  unfold write at h
  rw [locate_eq_follow hlinks hfile] at h
  cases hspelling : spellingFault? file with
  | some fault =>
    rw [hspelling] at h
    cases h
  | none =>
    rw [hspelling] at h
    cases hfollow : tree.root.follow file.names with
    | error cause =>
      rw [hfollow] at h
      cases h
    | ok found =>
      rw [hfollow] at h
      dsimp only [bind, Except.bind] at h
      cases found with
      | some node =>
        cases node with
        | file permissions old =>
          dsimp only [Target.ofFollowed] at h
          split at h
          · rename_i hwrite
            refine .inr ⟨hspelling, Or.inr ⟨permissions, old, hfollow⟩, permissions, hwrite, ?_⟩
            cases h
            exact hsingle.setFile_eq permissions bytes
          · cases h
        | directory permissions entries => cases h
        | link target => cases h
        | device permissions =>
          dsimp only [Target.ofFollowed] at h
          split at h
          · cases h
            exact .inl rfl
          · cases h
      | none =>
        have hne : file.names ≠ [] := by
          intro hnil
          rw [hnil] at hfollow
          cases hfollow
        have hnames : file.names.dropLast ++ [file.names.getLastD []] = file.names := by
          rw [List.getLastD_eq_getLast?, List.getLast?_eq_some_getLast hne, Option.getD_some,
            List.dropLast_append_getLast]
        dsimp only [Target.ofFollowed, List.nil_append] at h
        split at h
        · split at h
          · refine .inr ⟨hspelling, Or.inl hfollow, .ofFile, rfl, ?_⟩
            rw [hnames] at h
            cases h
            exact hsingle.setFile_eq .ofFile bytes
          · cases h
        · cases h

/-- A tree without links stays so when a file is written. -/
theorem Writes.linkFree (h : tree.Writes file bytes after) (hlinks : tree.root.LinkFree) :
    after.root.LinkFree := by
  obtain ⟨permissions, -, rfl⟩ := h.after_eq
  exact hlinks.set (.file permissions bytes) file.names

/-- Writing the same bytes at the same path again succeeds and changes nothing. -/
theorem Writes.write_again (h : tree.Writes file bytes after) (hlinks : tree.root.LinkFree)
    (hfile : file.IsNormal) (hsingle : tree.IsSingle file.names) :
    after.write file bytes = .ok after := by
  have hafter := h.linkFree hlinks
  obtain ⟨permissions, hwrite, rfl⟩ := h.after_eq
  unfold write
  rw [locate_eq_follow hafter hfile, h.spelling]
  dsimp only
  rw [Node.follow_set_self h.takesFile]
  dsimp only [bind, Except.bind, Target.ofFollowed, List.nil_append]
  have hagain : IsSingle { tree with root := tree.root.set file.names (.file permissions bytes) }
      file.names := hsingle
  rw [if_pos hwrite, hagain.setFile_eq, Node.set_set h.takesFile]
  rfl

/-- Where a path leads to that is not the one that was written, before and after: to the same, to
the same directory with one more or another entry, or to nothing. -/
inductive Kept (tree after : Tree) (file path : Path) : Prop
  /-- It leads to the same as before. -/
  | aside (same : ∀ followLast, after.node followLast path = tree.node followLast path)
  /-- It leads to a directory on the way to the file. -/
  | above (rights : Permissions) (entries : List (Name × Node)) (name : Name) (rest : List Name)
      (inner : Node) (place : path.names ++ name :: rest = file.names)
      (first : ∀ followLast, tree.node followLast path = .ok (.directory rights entries))
      (second : ∀ followLast,
        after.node followLast path = .ok (.directory rights (Node.put name inner entries)))
      (last : entries.lookup name = none → rest = [])
  /-- It is beyond the file and leads to nothing. -/
  | beyond (first : ∀ followLast, tree.node followLast path = .error (.failed .notFound path) ∨
        tree.node followLast path = .error (.failed .notADirectory path))
      (second : ∀ followLast, after.node followLast path = .error (.failed .notADirectory path))

/-- A normal path with other names than the file that was written leads to what it led to. -/
theorem Writes.kept (h : tree.Writes file bytes after) (hlinks : tree.root.LinkFree)
    (hpath : path.IsNormal) (hne : path.names ≠ file.names) : Kept tree after file path := by
  have hafter := h.linkFree hlinks
  obtain ⟨permissions, -, rfl⟩ := h.after_eq
  cases hspelling : spellingFault? path with
  | some fault =>
    refine .aside fun followLast => ?_
    rw [node_eq_follow hafter hpath, node_eq_follow hlinks hpath, hspelling]
  | none =>
    have hbefore : ∀ followLast, tree.node followLast path = _ := fun followLast =>
      node_eq_follow hlinks hpath
    have hlater : ∀ followLast, node _ followLast path = _ := fun followLast =>
      node_eq_follow hafter hpath
    simp only [hspelling] at hbefore hlater
    by_cases habove : path.names <+: file.names
    · obtain ⟨rest, hrest⟩ := habove
      cases rest with
      | nil => exact absurd (by rw [← hrest, List.append_nil]) hne
      | cons name rest =>
        have hplace := h.takesFile
        rw [← hrest] at hplace hlater
        obtain ⟨rights, entries, inner, hfirst, hsecond, hlast⟩ :=
          Node.follow_set_above permissions bytes hplace
        rw [hfirst] at hbefore
        rw [hsecond] at hlater
        exact .above rights entries name rest inner hrest hbefore (by rwa [hrest] at hlater) hlast
    · by_cases hbeyond : file.names <+: path.names
      · obtain ⟨rest, hrest⟩ := hbeyond
        have hnil : rest ≠ [] := by
          rintro rfl
          exact hne (by rw [← hrest, List.append_nil])
        obtain ⟨hfirst, hsecond⟩ :=
          Node.follow_set_beyond permissions bytes hnil h.takesFile
        rw [hrest] at hfirst hsecond
        rw [hsecond] at hlater
        refine .beyond (fun followLast => ?_) hlater
        rw [hbefore]
        rcases hfirst with hfirst | hfirst
        · rw [hfirst]
          exact Or.inl rfl
        · rw [hfirst]
          exact Or.inr rfl
      · rw [Node.follow_set_aside habove hbeyond h.takesFile] at hlater
        exact .aside fun followLast => (hlater followLast).trans (hbefore followLast).symm

section Kept

variable (h : Kept tree after file path)
include h

/-- A question about nodes that does not look into directories is answered as before. -/
theorem Kept.leadsTo_eq {property : Node → Bool}
    (hproperty : ∀ rights entries others,
      property (.directory rights entries) = property (.directory rights others)) :
    after.leadsTo followLast property path = tree.leadsTo followLast property path := by
  unfold leadsTo
  cases h with
  | aside same => rw [same]
  | above rights entries name rest inner place first second last =>
    rw [first, second]
    exact congrArg Except.ok (hproperty rights _ _)
  | beyond first second =>
    rw [second]
    rcases first followLast with hfirst | hfirst
    · rw [hfirst]
      rfl
    · rw [hfirst]

/-- What was a directory is one, and what was none is none. -/
theorem Kept.isDirectory_eq : after.isDirectory path = tree.isDirectory path :=
  h.leadsTo_eq fun _ _ _ => rfl

/-- What was a regular file is one, and what was none is none. -/
theorem Kept.isFile_eq : after.isFile path = tree.isFile path :=
  h.leadsTo_eq fun _ _ _ => rfl

/-- What was a link is one, and what was none is none. -/
theorem Kept.isLink_eq : after.isLink path = tree.isLink path :=
  h.leadsTo_eq fun _ _ _ => rfl

end Kept

/-- Where a question about nodes is answered with yes, there is a node. -/
theorem exists_node_of_leadsTo {property : Node → Bool}
    (h : tree.leadsTo followLast property path = .ok true) :
    ∃ node, tree.node followLast path = .ok node ∧ property node = true := by
  unfold leadsTo at h
  cases hnode : tree.node followLast path with
  | ok node =>
    rw [hnode] at h
    exact ⟨node, rfl, Except.ok.inj h⟩
  | error fault =>
    rw [hnode] at h
    cases fault with
    | nullInPath => cases h
    | failed cause place =>
      dsimp only at h
      split at h <;> cases h

/-- A file other than the one that was written has the same bytes as before. -/
theorem Kept.read_eq (h : Kept tree after file path) (hpath : tree.isFile path = .ok true) :
    after.read path = tree.read path := by
  obtain ⟨node, hnode, hkind⟩ := exists_node_of_leadsTo hpath
  unfold read
  cases h with
  | aside same => rw [same]
  | above rights entries name rest inner place first second last =>
    rw [first] at hnode
    cases hnode
    cases hkind
  | beyond first second =>
    rcases first true with hfirst | hfirst <;> rw [hfirst] at hnode <;> cases hnode

/-- A directory has the same names as before, or one more if the file that was written is new in
it. -/
theorem Kept.list_cases (h : Kept tree after file path)
    (hpath : tree.isDirectory path = .ok true) :
    after.list path = tree.list path ∨
      ∃ names name, tree.list path = .ok names ∧ after.list path = .ok (names ++ [name]) ∧
        name ∉ names ∧ path.names ++ [name] = file.names := by
  obtain ⟨node, hnode, -⟩ := exists_node_of_leadsTo hpath
  unfold list
  cases h with
  | aside same =>
    rw [same]
    exact Or.inl rfl
  | above rights entries name rest inner place first second last =>
    rw [first, second]
    dsimp only [bind, Except.bind]
    cases hlookup : entries.lookup name with
    | some old =>
      rw [Node.map_fst_put hlookup]
      exact Or.inl rfl
    | none =>
      rw [Node.map_fst_put_of_none hlookup]
      split
      · refine Or.inr ⟨_, name, rfl, rfl, Node.not_mem_of_lookup_eq_none hlookup, ?_⟩
        rw [← place, last hlookup]
      · exact Or.inl rfl
  | beyond first second =>
    rcases first true with hfirst | hfirst <;> rw [hfirst] at hnode <;> cases hnode

/-- There was no directory where a file was written, but maybe a file. -/
theorem Writes.before_cases (h : tree.Writes file bytes after) (hlinks : tree.root.LinkFree)
    (hfile : file.IsNormal) :
    tree.isDirectory file = .ok false ∧ ∃ isFile, tree.isFile file = .ok isFile := by
  unfold isDirectory isFile leadsTo
  rw [node_eq_follow hlinks hfile, h.spelling]
  rcases h.takesFile with hnone | ⟨permissions, old, hold⟩
  · rw [hnone]
    exact ⟨rfl, false, rfl⟩
  · rw [hold]
    exact ⟨rfl, true, rfl⟩

/-- The file that was written is there. -/
theorem Writes.node_eq (h : tree.Writes file bytes after) (followLast : Bool)
    (hlinks : tree.root.LinkFree)
    (hfile : file.IsNormal) :
    ∃ permissions, after.node followLast file = .ok (.file permissions bytes) := by
  have hafter := h.linkFree hlinks
  obtain ⟨permissions, -, rfl⟩ := h.after_eq
  refine ⟨permissions, ?_⟩
  rw [node_eq_follow hafter hfile, h.spelling]
  dsimp only
  rw [Node.follow_set_self h.takesFile]

/-- A question about the file that was written is about a regular file. -/
theorem Writes.leadsTo_eq (h : tree.Writes file bytes after) (hlinks : tree.root.LinkFree)
    (hfile : file.IsNormal) {property : Node → Bool} {answer : Bool}
    (hproperty : ∀ permissions, property (.file permissions bytes) = answer) :
    after.leadsTo followLast property file = .ok answer := by
  obtain ⟨permissions, hnode⟩ := h.node_eq followLast hlinks hfile
  unfold leadsTo
  rw [hnode]
  exact congrArg Except.ok (hproperty permissions)

end Tree

end SourceLoom.Files
