import SourceLoom.Proofs.Files.Following

/-!
# What writing leaves alone

In any tree, also in one with links, a path that can be written leads to one spot: to a file that is
there, or to where a new one appears. Writing puts a file at this spot and at the other names of the
file, and every other place of the tree keeps the file, the link or the directory that is there,
though a directory on the way gets a new entry. So every path leads to the same spot afterwards as
before. The path that was written leads to the new file, and a path to a file at another spot leads
to the same file. A special file at the spot keeps nothing, and then nothing changes at all.
-/

namespace SourceLoom.Files

namespace Node

variable {root node inner new : Node} {place other parent : List Name} {name : Name}
  {permissions : Permissions} {bytes : List UInt8} {entries : List (Name × Node)}

/-- What is at a place itself: a directory is taken without its entries. -/
def bare : Node → Node
  | .directory permissions _ => .directory permissions []
  | .file permissions bytes => .file permissions bytes
  | .link target => .link target
  | .device permissions => .device permissions

/-- Two nodes are of one kind: both are files, or both are directories with the same permissions,
or they are the same link or the same special file. -/
inductive IsLike : Node → Node → Prop
  /-- Two files. -/
  | file (permissions rights : Permissions) (bytes old : List UInt8) :
      IsLike (.file permissions bytes) (.file rights old)
  /-- Two directories with the same permissions. -/
  | directory (permissions : Permissions) (entries others : List (Name × Node)) :
      IsLike (.directory permissions entries) (.directory permissions others)
  /-- One link. -/
  | link (target : Text) : IsLike (.link target) (.link target)
  /-- One special file. -/
  | device (permissions : Permissions) : IsLike (.device permissions) (.device permissions)

/-- There is room for a file at a place: a file is there, or nothing is in an existing directory. -/
inductive HasRoom : Node → List Name → Prop
  /-- A file can be replaced. -/
  | file (permissions : Permissions) (bytes : List UInt8) : HasRoom (.file permissions bytes) []
  /-- A file can be added to a directory. -/
  | new {permissions : Permissions} {entries : List (Name × Node)} {name : Name} :
      entries.lookup name = none → HasRoom (.directory permissions entries) [name]
  /-- There is room in an entry. -/
  | inside {permissions : Permissions} {entries : List (Name × Node)} {name : Name}
      {inner : Node} {names : List Name} : entries.lookup name = some inner →
      HasRoom inner names → HasRoom (.directory permissions entries) (name :: names)

/-- What is at a place in a directory is in the entry that begins the place. -/
theorem get?_directory_cons (permissions : Permissions) (entries : List (Name × Node)) (name : Name)
    (names : List Name) : (directory permissions entries).get? (name :: names) =
      (entries.lookup name).bind fun inner => inner.get? names := rfl

/-- There is room where a file is. -/
theorem hasRoom_of_file (h : root.get? place = some (.file permissions bytes)) :
    root.HasRoom place := by
  induction place generalizing root with
  | nil =>
    cases h
    exact .file permissions bytes
  | cons name place ih =>
    cases root with
    | directory rights entries =>
      obtain ⟨inner, hinner, hrest⟩ := Option.bind_eq_some_iff.mp h
      exact .inside hinner (ih hrest)
    | file rights old => cases h
    | link target => cases h
    | device rights => cases h

/-- There is room in a directory under a name that it does not have. -/
theorem hasRoom_of_directory (h : root.get? parent = some (.directory permissions entries))
    (hname : entries.lookup name = none) : root.HasRoom (parent ++ [name]) := by
  induction parent generalizing root with
  | nil =>
    cases h
    exact .new hname
  | cons first parent ih =>
    cases root with
    | directory rights others =>
      obtain ⟨inner, hinner, hrest⟩ := Option.bind_eq_some_iff.mp h
      exact .inside hinner (ih hrest)
    | file rights old => cases h
    | link target => cases h
    | device rights => cases h

namespace HasRoom

/-- Where there is room, there is nothing or a file. -/
theorem get?_cases (h : root.HasRoom place) : root.get? place = none ∨
    ∃ permissions bytes, root.get? place = some (.file permissions bytes) := by
  induction h with
  | file permissions bytes => exact .inr ⟨permissions, bytes, rfl⟩
  | @new permissions entries name hname =>
    rw [get?_directory_cons, hname]
    exact .inl rfl
  | @inside permissions entries name inner names hinner _ ih =>
    rw [get?_directory_cons, hinner]
    exact ih

/-- What is put where there is room is there. -/
theorem get?_set_self (h : root.HasRoom place) (new : Node) :
    (root.set place new).get? place = some new := by
  induction h with
  | file permissions bytes => rfl
  | new _ => rw [set, get?_directory_cons, lookup_put_self, Option.bind_some, set, get?]
  | inside hinner _ ih =>
    rw [set, get?_directory_cons, lookup_put_self, Option.bind_some, hinner]
    exact ih

/-- A file that is put where there is room leaves what is at every other place. -/
theorem bare_get?_set (h : root.HasRoom place) (hother : other ≠ place) :
    ((root.set place (.file permissions bytes)).get? other).map bare =
      (root.get? other).map bare := by
  induction h generalizing other with
  | file rights old =>
    obtain ⟨name, names, rfl⟩ := List.exists_cons_of_ne_nil hother
    rfl
  | @new rights entries name hname =>
    cases other with
    | nil => rfl
    | cons first others =>
      rw [set, get?_directory_cons, get?_directory_cons]
      by_cases hfirst : first = name
      · have hothers : others ≠ [] := fun hnil => hother (by rw [hfirst, hnil])
        obtain ⟨next, rest, rfl⟩ := List.exists_cons_of_ne_nil hothers
        rw [hfirst, lookup_put_self, hname]
        rfl
      · rw [lookup_put_of_ne hfirst]
  | @inside rights entries name inner names hinner _ ih =>
    cases other with
    | nil => rfl
    | cons first others =>
      rw [set, get?_directory_cons, get?_directory_cons]
      by_cases hfirst : first = name
      · have hothers : others ≠ names := fun hsame => hother (by rw [hfirst, hsame])
        rw [hfirst, lookup_put_self, hinner]
        exact ih hothers
      · rw [lookup_put_of_ne hfirst]

end HasRoom

/-- What is at a place, taken without its entries, is a node that is no directory just if it is this
node. -/
theorem map_bare_eq_iff {found : Option Node} (h : node.isDirectory = false) :
    found.map bare = some node ↔ found = some node := by
  cases node <;> rcases found with _ | ⟨_⟩ | ⟨_⟩ | ⟨_⟩ | ⟨_⟩ <;> simp_all [bare, isDirectory]

/-- A directory is one without its entries. -/
theorem any_isDirectory_map_bare (found : Option Node) :
    (found.map bare).any isDirectory = found.any isDirectory := by
  rcases found with _ | ⟨_⟩ | ⟨_⟩ | ⟨_⟩ | ⟨_⟩ <;> rfl

/-- A root is another one after a file was put at some places: it is at these, and at all other
places is what was there. -/
structure Filled (root : Node) (places : List (List Name)) (permissions : Permissions)
    (bytes : List UInt8) (later : Node) : Prop where
  /-- The file is at the places. -/
  there : ∀ place ∈ places, later.get? place = some (.file permissions bytes)
  /-- All other places are as they were. -/
  elsewhere : ∀ other ∉ places, (later.get? other).map bare = (root.get? other).map bare

namespace Filled

variable {places : List (List Name)} {later last : Node}

/-- A file that is put where there is room is there, and everything else is as it was. -/
theorem of_hasRoom (h : root.HasRoom place) :
    root.Filled [place] permissions bytes (root.set place (.file permissions bytes)) where
  there name hname := by
    rw [List.mem_singleton.mp hname]
    exact h.get?_set_self _
  elsewhere _ hother := h.bare_get?_set fun hsame => hother (List.mem_singleton.mpr hsame)

/-- A file that is put at a place and then at others is put at all of them. -/
theorem cons (h : root.Filled [place] permissions bytes later)
    (hrest : later.Filled places permissions bytes last) :
    root.Filled (place :: places) permissions bytes last where
  there name hname := by
    by_cases hmem : name ∈ places
    · exact hrest.there name hmem
    · obtain rfl := (List.mem_cons.mp hname).resolve_right hmem
      rw [← map_bare_eq_iff rfl, hrest.elsewhere name hmem,
        h.there name (List.mem_singleton.mpr rfl)]
      rfl
  elsewhere other hother := by
    rw [List.mem_cons, not_or] at hother
    rw [hrest.elsewhere other hother.2, h.elsewhere other (by simpa using hother.1)]

/-- Where a file was, there is one. -/
theorem exists_file (h : root.Filled places permissions bytes later) {rights : Permissions}
    {old : List UInt8} (hfile : root.get? other = some (.file rights old)) :
    ∃ rights old, later.get? other = some (.file rights old) := by
  by_cases hmem : other ∈ places
  · exact ⟨permissions, bytes, h.there other hmem⟩
  · refine ⟨rights, old, ?_⟩
    rw [← map_bare_eq_iff rfl, h.elsewhere other hmem, hfile]
    rfl

/-- A file can be put at all places where files are. -/
theorem of_files (hfiles : ∀ place ∈ places, ∃ rights old,
    root.get? place = some (.file rights old)) :
    root.Filled places permissions bytes
      (places.foldl (fun root place => root.set place (.file permissions bytes)) root) := by
  induction places generalizing root with
  | nil => exact ⟨nofun, fun _ _ => rfl⟩
  | cons place places ih =>
    obtain ⟨⟨rights, old, hfile⟩, hrest⟩ := List.forall_mem_cons.mp hfiles
    have hfirst : root.Filled [place] permissions bytes _ := of_hasRoom (hasRoom_of_file hfile)
    refine hfirst.cons (ih fun name hname => ?_)
    obtain ⟨rights, old, hname⟩ := hrest name hname
    exact hfirst.exists_file hname

end Filled

end Node

/-- What a path leads to is in a tree as it is said. -/
def Target.IsIn (tree : Tree) : Target → Prop
  | .found place node => tree.root.get? place = some node
  | .absent parent name => ∃ permissions entries,
    tree.root.get? parent = some (.directory permissions entries) ∧ entries.lookup name = none

/-- The spot of an answer, if there is one. -/
def spotOf {ε : Type} (answer : Except ε Target) : Option (List Name) :=
  answer.toOption.map Target.spot

namespace Tree

variable {tree after : Tree} {path other : Path} {place : List Name} {bytes : List UInt8}
  {followLast : Bool} {target : Target}

/-- The spot that a path leads to, if it leads to one. -/
def spot? (tree : Tree) (path : Path) : Option (List Name) := spotOf (tree.locate true path)

/-- What names lead to is in the tree. -/
theorem isIn_of_walkNames {onLink : List Name → List Name → Except Cause Target}
    (hlink : ∀ {start names target}, onLink start names = .ok target → target.IsIn tree)
    {start names : List Name} (h : tree.walkNames followLast onLink start names = .ok target) :
    target.IsIn tree := by
  induction names generalizing start with
  | nil =>
    rw [walkNames] at h
    split at h
    · rename_i node hnode
      cases h
      exact hnode
    · cases h
  | cons name names ih =>
    rw [walkNames] at h
    split at h
    · cases h
    · rename_i permissions entries hplace
      split at h
      · exact ih h
      · split at h
        · cases h
        · split at h
          · cases h
          · split at h
            · exact ih h
            · split at h
              · exact ih h
              · split at h
                · rename_i hnone
                  split at h
                  · cases h
                    exact ⟨permissions, entries, hplace, hnone⟩
                  · cases h
                · rename_i text hsome
                  split at h
                  · cases h
                    exact (Node.get?_concat hplace name).trans hsome
                  · exact hlink h
                · exact ih h
    · cases h

/-- What a walk leads to is in the tree. -/
theorem isIn_of_walk {links : Nat} {start names : List Name}
    (h : tree.walk followLast links start names = .ok target) : target.IsIn tree := by
  induction links generalizing start names target with
  | zero => exact isIn_of_walkNames (fun hlink => by cases hlink) h
  | succ links ih => exact isIn_of_walkNames ih h

/-- What a path leads to is in the tree. -/
theorem isIn_of_locate (h : tree.locate followLast path = .ok target) : target.IsIn tree := by
  unfold locate at h
  split at h
  · cases h
  · split at h
    · cases h
    · split at h
      · cases h
      · split at h
        · rename_i found hfound
          cases h
          exact isIn_of_walk hfound
        · cases h

/-- A path leads to a node just if this is at its spot. -/
theorem node_eq_ok_iff_spot? {node : Node} : tree.node true path = .ok node ↔
    ∃ place, tree.spot? path = some place ∧ tree.root.get? place = some node := by
  unfold Tree.node spot?
  cases hlocate : tree.locate true path with
  | error fault => exact iff_of_false nofun fun ⟨_, hspot, _⟩ => nomatch hspot
  | ok target =>
    have hin := isIn_of_locate hlocate
    cases target with
    | found place found =>
      constructor
      · intro h
        cases h
        exact ⟨place, rfl, hin⟩
      · rintro ⟨_, ⟨⟩, hnode⟩
        cases hin.symm.trans hnode
        rfl
    | absent parent name =>
      obtain ⟨permissions, entries, hparent, hname⟩ := hin
      refine iff_of_false nofun ?_
      rintro ⟨_, ⟨⟩, hnode⟩
      rw [Target.spot, Node.get?_concat hparent, hname] at hnode
      cases hnode

/-- A path leads to a file with these bytes. -/
def Holds (tree : Tree) (path : Path) (bytes : List UInt8) : Prop :=
  ∃ permissions, tree.node true path = .ok (.file permissions bytes)

/-- A path leads to a special file. -/
def IsDevice (tree : Tree) (path : Path) : Prop :=
  ∃ permissions, tree.node true path = .ok (.device permissions)

/-- The names of the file at a place. -/
def namesOf (tree : Tree) (place : List Name) : List (List Name) :=
  place :: (tree.record place).names

/-- A file changes at its names only. -/
theorem placesOf_subset (tree : Tree) (place : List Name) :
    tree.placesOf place ⊆ tree.namesOf place :=
  List.cons_subset_cons place (List.filter_subset_self _)

/-- A tree is another one after a file was put at some places. At all other places both have the
same file, the same link, or a directory, or both have nothing. -/
structure Puts (tree : Tree) (places : List (List Name)) (bytes : List UInt8) (after : Tree) :
    Prop where
  /-- The working directory is the same. -/
  cwd_eq : after.cwd = tree.cwd
  /-- The files have the same names and take as much. -/
  records_eq : after.records = tree.records
  /-- There was nothing at the places, or a file. -/
  before : ∀ place ∈ places, tree.root.get? place = none ∨
    ∃ permissions old, tree.root.get? place = some (.file permissions old)
  /-- The file is there now. -/
  filled : ∃ permissions, tree.root.Filled places permissions bytes after.root

/-- What is put at a place is put at all names of the file. -/
theorem puts_setFile (hroom : tree.root.HasRoom place) (permissions : Permissions)
    (bytes : List UInt8) :
    tree.Puts (tree.placesOf place) bytes (tree.setFile place permissions bytes) := by
  have hothers : ∀ other ∈ (tree.placesOf place).tail, ∃ rights old,
      tree.root.get? other = some (.file rights old) := by
    intro other hother
    obtain ⟨-, hkept⟩ := List.mem_filter.mp hother
    obtain ⟨node, hnode, hfile⟩ := (Option.any_eq_true _ _).mp (of_decide_eq_true hkept).2
    cases node <;> cases hfile
    exact ⟨_, _, hnode⟩
  have hfirst : tree.root.Filled [place] permissions bytes _ := .of_hasRoom hroom
  refine ⟨rfl, rfl, List.forall_mem_cons.mpr ⟨hroom.get?_cases, fun other hother =>
    .inr (hothers other hother)⟩, permissions, hfirst.cons (.of_files fun other hother => ?_)⟩
  obtain ⟨rights, old, hfile⟩ := hothers other hother
  exact hfirst.exists_file hfile

/-- What writing at a path did: a file was put at the spot of the path and at its other names, or
nothing changed as a special file is there. -/
inductive Wrote (tree : Tree) (path : Path) (bytes : List UInt8) : Tree → Prop
  /-- There is a special file. -/
  | device : tree.IsDevice path → Wrote tree path bytes tree
  /-- The file was put there. -/
  | puts {place : List Name} {after : Tree} : tree.spot? path = some place →
      tree.Puts (tree.placesOf place) bytes after → Wrote tree path bytes after

/-- Writing that succeeds did this. -/
theorem wrote_of_write (h : tree.write path bytes = .ok after) : tree.Wrote path bytes after := by
  unfold write at h
  cases hlocate : tree.locate true path with
  | error fault =>
    rw [hlocate] at h
    cases h
  | ok target =>
    rw [hlocate] at h
    have hin := isIn_of_locate hlocate
    dsimp only [bind, Except.bind] at h
    cases target with
    | found place node =>
      cases node with
      | file permissions old =>
        dsimp only at h
        split at h
        · cases h
          refine .puts ?_ (puts_setFile (Node.hasRoom_of_file hin) permissions bytes)
          rw [spot?, hlocate]
          rfl
        · cases h
      | directory permissions entries => cases h
      | link target => cases h
      | device permissions =>
        dsimp only at h
        split at h
        · cases h
          refine .device ⟨permissions, ?_⟩
          rw [node, hlocate]
          rfl
        · cases h
    | absent parent name =>
      obtain ⟨permissions, entries, hparent, hname⟩ := hin
      dsimp only at h
      rw [hparent] at h
      dsimp only at h
      split at h
      · cases h
        refine .puts ?_ (puts_setFile (Node.hasRoom_of_directory hparent hname) .ofFile bytes)
        rw [spot?, hlocate]
        rfl
      · cases h

namespace Puts

variable {places : List (List Name)}

/-- At a place that is none of those where the file was put there is what was there. -/
theorem elsewhere (h : tree.Puts places bytes after) {start : List Name} (hstart : start ∉ places) :
    (after.root.get? start).map Node.bare = (tree.root.get? start).map Node.bare := by
  obtain ⟨permissions, hfilled⟩ := h.filled
  exact hfilled.elsewhere start hstart

/-- What is at a place of the tree is still of its kind: there is a file for a file, the same link,
the same special file, and a directory with the same permissions. -/
theorem exists_isLike (h : tree.Puts places bytes after) {start : List Name} {node : Node}
    (hstart : tree.root.get? start = some node) :
    ∃ later, after.root.get? start = some later ∧ node.IsLike later := by
  by_cases hplace : start ∈ places
  · obtain ⟨permissions, hfilled⟩ := h.filled
    rcases h.before start hplace with hnone | ⟨rights, old, hold⟩
    · cases hstart.symm.trans hnone
    · cases hstart.symm.trans hold
      exact ⟨_, hfilled.there start hplace, .file ..⟩
  · have helsewhere := h.elsewhere hplace
    rw [hstart] at helsewhere
    obtain ⟨later, hlater, hbare⟩ := Option.map_eq_some_iff.mp helsewhere
    refine ⟨later, hlater, ?_⟩
    cases node <;> cases later <;> cases hbare
    · exact .file ..
    · exact .directory ..
    · exact .link _
    · exact .device _

/-- The names of a path are followed from the same place as before. -/
theorem start?_eq (h : tree.Puts places bytes after) (path : Path) :
    after.start? path = tree.start? path := by
  have hsame : (after.root.get? tree.cwd.names).any Node.isDirectory =
      (tree.root.get? tree.cwd.names).any Node.isDirectory := by
    by_cases hplace : tree.cwd.names ∈ places
    · obtain ⟨permissions, hfilled⟩ := h.filled
      rw [hfilled.there _ hplace]
      rcases h.before _ hplace with hnone | ⟨rights, old, hold⟩
      · rw [hnone]
        rfl
      · rw [hold]
        rfl
    · rw [← Node.any_isDirectory_map_bare, h.elsewhere hplace, Node.any_isDirectory_map_bare]
  rw [start?, start?, h.cwd_eq, hsame]

end Puts

/-- Names lead on from a file nowhere. -/
theorem walkNames_file {onLink : List Name → List Name → Except Cause Target} {start : List Name}
    {permissions : Permissions} (hstart : tree.root.get? start = some (.file permissions bytes))
    (names : List Name) : tree.walkNames followLast onLink start names =
      if names = [] then .ok (.found start (.file permissions bytes))
      else .error .notADirectory := by
  cases names with
  | nil => rw [walkNames, hstart, if_pos rfl]
  | cons name names => rw [walkNames, hstart, if_neg (List.cons_ne_nil _ _)]

/-- What leads to a place that is there leads to its directory. -/
theorem get?_dropLast_ne_none {root : Node} {start : List Name} (h : root.get? start ≠ none) :
    root.get? start.dropLast ≠ none := by
  intro hnone
  rcases List.eq_nil_or_concat' start with rfl | ⟨parent, name, rfl⟩
  · exact h hnone
  · rw [List.dropLast_concat] at hnone
    rw [Node.get?_append, hnone] at h
    exact h rfl

/-- What names lead to that begin with an entry of a directory. -/
def walkEntry (tree : Tree) (followLast : Bool)
    (onLink : List Name → List Name → Except Cause Target) (start : List Name) (name : Name)
    (names : List Name) : Except Cause Target :=
  match tree.root.get? (start ++ [name]) with
  | none => if names = [] then .ok (.absent start name) else .error .notFound
  | some (.link text) =>
    if names = [] ∧ !followLast then .ok (.found (start ++ [name]) (.link text))
    else
      onLink (if (Path.ofText text).isAbsolute then [] else start) (Text.splitOn '/' text ++ names)
  | some _ => walkNames tree followLast onLink (start ++ [name]) names

namespace Puts

variable {places : List (List Name)}

/-- After a file was put into a tree, names that begin with an entry of a directory lead to the same
spot, if the other names do. -/
theorem spotOf_walkEntry (h : tree.Puts places bytes after)
    {onLink onLater : List Name → List Name → Except Cause Target}
    (hlink : ∀ start names, tree.root.get? start ≠ none →
      spotOf (onLater start names) = spotOf (onLink start names))
    {start names : List Name} {name : Name} (hstart : tree.root.get? start ≠ none)
    (hnames : ∀ {start}, tree.root.get? start ≠ none →
      spotOf (after.walkNames followLast onLater start names) =
        spotOf (tree.walkNames followLast onLink start names)) :
    spotOf (after.walkEntry followLast onLater start name names) =
      spotOf (tree.walkEntry followLast onLink start name names) := by
  unfold walkEntry
  cases hentry : tree.root.get? (start ++ [name]) with
  | none =>
    by_cases hplace : start ++ [name] ∈ places
    · -- What was put there is a file, and it is the spot if no name is left.
      obtain ⟨rights, hfilled⟩ := h.filled
      have hfile := hfilled.there _ hplace
      rw [hfile]
      dsimp only
      rw [walkNames_file hfile]
      split
      · rfl
      · rfl
    · have hnone := h.elsewhere hplace
      rw [hentry] at hnone
      rw [Option.map_eq_none_iff.mp hnone]
  | some inner =>
    have hthere : tree.root.get? (start ++ [name]) ≠ none := by
      rw [hentry]
      exact nofun
    obtain ⟨later, hlater, hlike⟩ := h.exists_isLike hentry
    rw [hlater]
    cases hlike with
    | file permissions rights bytes old => exact hnames hthere
    | directory permissions entries others => exact hnames hthere
    | device permissions => exact hnames hthere
    | link target =>
      dsimp only
      split
      · rfl
      · refine hlink _ _ ?_
        split
        · exact nofun
        · exact hstart

/-- After a file was put into a tree, names lead to the same spot from every place that was
there. -/
theorem spotOf_walkNames (h : tree.Puts places bytes after)
    {onLink onLater : List Name → List Name → Except Cause Target}
    (hlink : ∀ start names, tree.root.get? start ≠ none →
      spotOf (onLater start names) = spotOf (onLink start names))
    {start names : List Name} (hstart : tree.root.get? start ≠ none) :
    spotOf (after.walkNames followLast onLater start names) =
      spotOf (tree.walkNames followLast onLink start names) := by
  induction names generalizing start with
  | nil =>
    obtain ⟨node, hnode⟩ := Option.ne_none_iff_exists'.mp hstart
    obtain ⟨later, hlater, -⟩ := h.exists_isLike hnode
    rw [walkNames, walkNames, hnode, hlater]
    rfl
  | cons name names ih =>
    obtain ⟨node, hnode⟩ := Option.ne_none_iff_exists'.mp hstart
    obtain ⟨later, hlater, hlike⟩ := h.exists_isLike hnode
    rw [walkNames, walkNames, hnode, hlater]
    cases hlike with
    | file permissions rights bytes old => rfl
    | link target => rfl
    | device permissions => rfl
    | directory permissions entries others =>
      dsimp only
      rw [← Node.get?_concat hnode name, ← Node.get?_concat hlater name]
      split
      · exact ih hstart
      · split
        · rfl
        · split
          · rfl
          · split
            · exact ih hstart
            · split
              · exact ih (get?_dropLast_ne_none hstart)
              · exact h.spotOf_walkEntry hlink hstart ih

/-- After a file was put into a tree, a walk leads to the same spot from every place that was
there. -/
theorem spotOf_walk (h : tree.Puts places bytes after) (links : Nat)
    {start names : List Name} (hstart : tree.root.get? start ≠ none) :
    spotOf (after.walk followLast links start names) =
      spotOf (tree.walk followLast links start names) := by
  induction links generalizing start names with
  | zero => exact h.spotOf_walkNames (fun _ _ _ => rfl) hstart
  | succ links ih => exact h.spotOf_walkNames (fun _ _ hnext => ih hnext) hstart

end Puts

/-- The names of a path are followed from a place that is there. -/
theorem get?_start_ne_none {start : List Name} (h : tree.start? path = some start) :
    tree.root.get? start ≠ none := by
  unfold start? at h
  split at h
  · cases h
    exact nofun
  · split at h
    · rename_i hdirectory
      cases h
      intro hnone
      rw [hnone] at hdirectory
      cases hdirectory
    · cases h

namespace Puts

variable {places : List (List Name)}

/-- After a file was put into a tree, every path leads to the same spot. -/
theorem spot?_eq (h : tree.Puts places bytes after) (path : Path) :
    after.spot? path = tree.spot? path := by
  unfold spot? locate
  rw [h.start?_eq]
  split
  · rfl
  · split
    · rfl
    · cases hstart : tree.start? path with
      | none => rfl
      | some start =>
        have hwalk : spotOf (after.walk true linkLimit start path.names) =
            spotOf (tree.walk true linkLimit start path.names) :=
          h.spotOf_walk linkLimit (get?_start_ne_none hstart)
        unfold spotOf at hwalk
        dsimp only
        revert hwalk
        cases after.walk true linkLimit start path.names <;>
          cases tree.walk true linkLimit start path.names <;> exact id

/-- A path to one of the places leads to the file. -/
theorem holds_self (h : tree.Puts places bytes after) {place : List Name} (hplace : place ∈ places)
    (hspot : tree.spot? path = some place) : after.Holds path bytes := by
  obtain ⟨permissions, hfilled⟩ := h.filled
  exact ⟨permissions, node_eq_ok_iff_spot?.mpr
    ⟨place, (h.spot?_eq path).trans hspot, hfilled.there place hplace⟩⟩

/-- A path to a spot that is none of the places leads to the same node, if this is no directory. -/
theorem node_eq_ok (h : tree.Puts places bytes after)
    (hspot : ∀ place ∈ tree.spot? path, place ∉ places) {node : Node}
    (hkind : node.isDirectory = false) (hnode : tree.node true path = .ok node) :
    after.node true path = .ok node := by
  obtain ⟨place, hplace, hget⟩ := node_eq_ok_iff_spot?.mp hnode
  refine node_eq_ok_iff_spot?.mpr ⟨place, (h.spot?_eq path).trans hplace, ?_⟩
  have hbare := (Node.map_bare_eq_iff hkind).mpr hget
  rwa [← h.elsewhere (hspot place hplace), Node.map_bare_eq_iff hkind] at hbare

/-- A path to a special file leads to it afterwards. -/
theorem isDevice (h : tree.Puts places bytes after) (hdevice : tree.IsDevice path) :
    after.IsDevice path := by
  obtain ⟨permissions, hnode⟩ := hdevice
  refine ⟨permissions, h.node_eq_ok (fun place hplace hmem => ?_) rfl hnode⟩
  obtain ⟨spot, hspot, hget⟩ := node_eq_ok_iff_spot?.mp hnode
  cases hspot.symm.trans hplace
  rcases h.before _ hmem with hnone | ⟨rights, old, hold⟩
  · cases hget.symm.trans hnone
  · cases hget.symm.trans hold

end Puts

/-- What was written at a path can be read there, unless a special file is there, which keeps
nothing. -/
def Keeps (tree : Tree) (path : Path) (bytes : List UInt8) : Prop :=
  tree.Holds path bytes ∨ tree.IsDevice path

namespace Wrote

/-- Afterwards the same is known of the files. -/
theorem records_eq (h : tree.Wrote path bytes after) : after.records = tree.records := by
  cases h with
  | device _ => rfl
  | puts _ hputs => exact hputs.records_eq

/-- Afterwards every path leads to the same spot. -/
theorem spot?_eq (h : tree.Wrote path bytes after) (other : Path) :
    after.spot? other = tree.spot? other := by
  cases h with
  | device _ => rfl
  | puts _ hputs => exact hputs.spot?_eq other

/-- Every place but the names of the file is as it was. -/
theorem elsewhere (h : tree.Wrote path bytes after)
    (hplace : ∀ spot ∈ tree.spot? path, place ∉ tree.namesOf spot) :
    (after.root.get? place).map Node.bare = (tree.root.get? place).map Node.bare := by
  cases h with
  | device _ => rfl
  | @puts spot _ hspot hputs =>
    exact hputs.elsewhere fun hmem => hplace spot hspot (tree.placesOf_subset spot hmem)

/-- What was written is kept. -/
theorem keeps_self (h : tree.Wrote path bytes after) : after.Keeps path bytes := by
  cases h with
  | device hdevice => exact .inr hdevice
  | puts hspot hputs => exact .inl (hputs.holds_self List.mem_cons_self hspot)

/-- What another file keeps is kept. -/
theorem keeps (h : tree.Wrote path bytes after) {content : List UInt8}
    (hother : ∀ place ∈ tree.spot? path, ∀ spot ∈ tree.spot? other, spot ∉ tree.namesOf place)
    (hkeeps : tree.Keeps other content) : after.Keeps other content := by
  cases h with
  | device _ => exact hkeeps
  | @puts place _ hspot hputs =>
    refine hkeeps.imp (fun ⟨permissions, hnode⟩ => ⟨permissions, ?_⟩) hputs.isDevice
    exact hputs.node_eq_ok (fun spot hplace hmem =>
      hother place hspot spot hplace (tree.placesOf_subset place hmem)) rfl hnode

end Wrote

/-- What a file keeps of some bytes is a beginning of them, and all of them if writing does not
fail. -/
theorem fit_cases (tree : Tree) (place : List Name) (bytes : List UInt8) :
    (tree.fit place bytes).1 <+: bytes ∧
      ((tree.fit place bytes).2 = none → (tree.fit place bytes).1 = bytes) := by
  unfold fit
  split
  · exact ⟨List.prefix_rfl, fun _ => rfl⟩
  · exact ⟨List.take_prefix _ bytes, nofun⟩

/-- Storing is writing what the file at the spot keeps. -/
theorem store_eq_ok_iff {shortage : Option Shortage} :
    tree.store path bytes = .ok (after, shortage) ↔ ∃ place, tree.spot? path = some place ∧
      tree.write path (tree.fit place bytes).1 = .ok after ∧
      (tree.fit place bytes).2 = shortage := by
  unfold store spot? spotOf
  cases hlocate : tree.locate true path with
  | error fault => exact iff_of_false nofun fun ⟨_, hspot, _⟩ => nomatch hspot
  | ok target =>
    dsimp only [bind, Except.bind]
    constructor
    · intro h
      cases hwrite : tree.write path (tree.fit target.spot bytes).1 with
      | error fault =>
        rw [hwrite] at h
        cases h
      | ok written =>
        rw [hwrite] at h
        cases h
        exact ⟨target.spot, rfl, hwrite, rfl⟩
    · rintro ⟨_, ⟨⟩, hwrite, rfl⟩
      rw [hwrite]
      rfl

/-- What storing did: a beginning of the bytes was written, and all of them if it does not tell of a
shortage. -/
theorem exists_wrote_of_store {shortage : Option Shortage}
    (h : tree.store path bytes = .ok (after, shortage)) :
    ∃ kept, tree.Wrote path kept after ∧ kept <+: bytes ∧ (shortage = none → kept = bytes) := by
  obtain ⟨place, -, hwrite, rfl⟩ := store_eq_ok_iff.mp h
  obtain ⟨hkept, hall⟩ := tree.fit_cases place bytes
  exact ⟨_, wrote_of_write hwrite, hkept, hall⟩

end Tree

end SourceLoom.Files
