import SourceLoom.Files.Lookup
import SourceLoom.Proofs.Path.Normal

/-!
# Places without links

In a tree without links a normal path says by itself where it leads: looking it up goes through its
names one by one, and what is found is at the place of these names. So two normal paths that lead
to the same file have the same names, and can only differ in how many slashes they begin with.
-/

namespace SourceLoom.Files

/-- What an entry has if its directory has it, everything at a place below has. -/
theorem Node.get?_inherits {P : Node → Prop}
    (hentry : ∀ {node inner : Node} {name : Name}, P node → node.entry? name = some inner → P inner)
    {node inner : Node} {place : List Name} (h : P node) (hget : node.get? place = some inner) :
    P inner := by
  induction place generalizing node with
  | nil =>
    cases hget
    exact h
  | cons name place ih =>
    obtain ⟨next, hnext, hrest⟩ := Option.bind_eq_some_iff.mp hget
    exact ih (hentry h hnext) hrest

/-- No link is anywhere in a node. -/
inductive Node.LinkFree : Node → Prop
  /-- A regular file is no link. -/
  | file (permissions : Permissions) (bytes : List UInt8) : LinkFree (.file permissions bytes)
  /-- A special file is no link. -/
  | device (permissions : Permissions) : LinkFree (.device permissions)
  /-- A directory is no link, and nothing in it is one. -/
  | directory {permissions : Permissions} {entries : List (Name × Node)} :
      (∀ entry ∈ entries, LinkFree entry.2) → LinkFree (.directory permissions entries)

namespace Node.LinkFree

/-- What is in a node without links is without links. -/
theorem of_entry {node inner : Node} {name : Name} (h : node.LinkFree)
    (hentry : node.entry? name = some inner) : inner.LinkFree := by
  cases h with
  | file permissions bytes => cases hentry
  | device permissions => cases hentry
  | directory hall =>
    obtain ⟨before, after, rfl, -⟩ := List.lookup_eq_some_iff.mp hentry
    exact hall (name, inner) (List.mem_append_right _ List.mem_cons_self)

/-- What is at a place below a node without links is without links. -/
theorem of_get {node inner : Node} {place : List Name} (h : node.LinkFree)
    (hget : node.get? place = some inner) : inner.LinkFree :=
  get?_inherits of_entry h hget

end Node.LinkFree

namespace Tree

variable {tree : Tree}

/-- Clean names without a double dot lead through a tree without links to the place that they
spell. -/
theorem walkNames_place (hlinks : tree.root.LinkFree) {followLast : Bool}
    {onLink : List Name → List Name → Except Cause Target} {start names place : List Name}
    {node : Node} (hclean : ∀ name ∈ names, name ≠ [] ∧ name ≠ Path.dot ∧ '/' ∉ name)
    (hup : Path.dotDot ∉ names)
    (h : tree.walkNames followLast onLink start names = .ok (.found place node)) :
    place = start ++ names := by
  induction names generalizing start with
  | nil =>
    unfold walkNames at h
    split at h
    · cases h
      exact (List.append_nil _).symm
    · cases h
  | cons name names ih =>
    rw [List.mem_cons, not_or] at hup
    obtain ⟨hname, hnames⟩ := hup
    obtain ⟨⟨hne, hdot, -⟩, hclean⟩ := List.forall_mem_cons.mp hclean
    unfold walkNames at h
    split at h
    · cases h
    · rename_i permissions entries hdirectory
      rw [if_neg hne] at h
      split at h
      · cases h
      · split at h
        · cases h
        · rw [if_neg (Ne.symm hname)] at h
          split at h
          · split at h <;> cases h
          · rename_i text hlookup
            have hlink := (hlinks.of_get hdirectory).of_entry hlookup
            cases hlink
          · have hplace := ih hclean hnames h
            rw [hplace, List.append_assoc]
            rfl
    · cases h

/-- The names of an absolute path are followed from the root directory. -/
theorem start?_of_isAbsolute {path : Path} (hpath : path.isAbsolute = true) :
    tree.start? path = some [] := if_pos hpath

/-- Where an absolute path leads is found along its names, however many slashes it begins with. -/
theorem walk_of_locate {followLast : Bool} {path : Path} (hpath : path.isAbsolute = true)
    {target : Target} (h : tree.locate followLast path = .ok target) :
    tree.walk followLast linkLimit [] path.names = .ok target := by
  unfold locate at h
  rw [start?_of_isAbsolute hpath] at h
  split at h
  · cases h
  · split at h
    · cases h
    · dsimp only at h
      split at h
      · rename_i hwalk
        cases h
        exact hwalk
      · cases h

/-- A normal path that leads to a node of a tree without links leads to the place of its names. -/
theorem locate_place (hlinks : tree.root.LinkFree) {followLast : Bool} {path : Path}
    (hpath : path.IsNormal) {place : List Name} {node : Node}
    (h : tree.locate followLast path = .ok (.found place node)) : place = path.names :=
  walkNames_place hlinks hpath.isClean hpath.noDotDot (walk_of_locate hpath.isAbsolute h)

/-- Where a regular file is, a path leads to a node. -/
theorem exists_found {path : Path} (h : tree.isFile path = .ok true) :
    ∃ place node, tree.locate true path = .ok (.found place node) := by
  unfold isFile leadsTo Tree.node at h
  cases hlocate : tree.locate true path with
  | error fault =>
    rw [hlocate] at h
    cases fault with
    | nullInPath => cases h
    | failed cause path =>
      dsimp only [bind, Except.bind] at h
      split at h <;> cases h
  | ok target =>
    rw [hlocate] at h
    cases target with
    | found place node => exact ⟨place, node, rfl⟩
    | absent parent name => cases h

/-- Two paths lead to the same place in a tree. -/
def SamePlace (tree : Tree) (p q : Path) : Prop :=
  ∃ place node, tree.locate true p = .ok (.found place node) ∧
    tree.locate true q = .ok (.found place node)

/-- In a tree without links the normal paths of regular files lead to the same place just when they
have the same names. -/
theorem samePlace_iff (hlinks : tree.root.LinkFree) {p q : Path} (hp : p.IsNormal)
    (hq : q.IsNormal) (hfirst : tree.isFile p = .ok true) (hsecond : tree.isFile q = .ok true) :
    tree.SamePlace p q ↔ p.names = q.names := by
  constructor
  · rintro ⟨place, node, hfirst, hsecond⟩
    exact (locate_place hlinks hp hfirst).symm.trans (locate_place hlinks hq hsecond)
  · intro hnames
    obtain ⟨place, node, hfirst⟩ := exists_found hfirst
    obtain ⟨other, found, hsecond⟩ := exists_found hsecond
    have hwalk := walk_of_locate hp.isAbsolute hfirst
    rw [hnames, walk_of_locate hq.isAbsolute hsecond] at hwalk
    cases hwalk
    exact ⟨place, node, hfirst, hsecond⟩

end Tree

end SourceLoom.Files
