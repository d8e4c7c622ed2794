import SourceLoom.Proofs.Files.Entries
import SourceLoom.Proofs.Path.Pieces

/-!
# Spelling a path in another way

On disk a text is followed piece by piece. An empty piece, which two slashes enclose or a slash at
the end leaves, stays in a directory; a single dot does so too, if the directory may be entered; a
double dot leads to the directory above, and at the root directory nowhere else; every other piece
is looked up among the entries. The absolute form of a path is found without looking at the disk.
Still it leads to the same place, if the disk has no links: then the directory above is the one
that the last name was looked up in.

A single question about a path is refused if the path is too long. That is a limit of the question,
and no part of where the pieces of the path lead.
-/

namespace SourceLoom.Files

namespace Tree

variable {tree : Tree} {place target : List Name} {name : Name} {pieces names : List Text}
  {node inner : Node}

/-- At a place there is a directory, and its entries may be reached. -/
def IsOpen (tree : Tree) (place : List Name) : Prop :=
  ∃ permissions entries, tree.root.get? place = some (.directory permissions entries) ∧
    permissions.reach = true

/-- In the directory at a place a name can be looked up, and it is that of a node. -/
structure HasEntry (tree : Tree) (place : List Name) (name : Name) (node : Node) : Prop where
  /-- The entries of the directory may be reached. -/
  isOpen : tree.IsOpen place
  /-- The name is one that an entry can have. -/
  isName : Path.IsName name
  /-- The name is not too long. -/
  short : ¬nameLimit < Utf8.size name
  /-- The node is there. -/
  get?_eq : tree.root.get? (place ++ [name]) = some node

/-- Where the pieces of a text lead from a place, one after the other. -/
inductive Goes (tree : Tree) : (place : List Name) → (pieces : List Text) → (target : List Name) →
    Node → Prop
  /-- Without pieces the place itself is meant. -/
  | here {place : List Name} {node : Node} : tree.root.get? place = some node →
      Goes tree place [] place node
  /-- An empty piece stays in a directory. -/
  | slash {place target : List Name} {pieces : List Text} {node : Node} {permissions : Permissions}
      {entries : List (Name × Node)} :
      tree.root.get? place = some (.directory permissions entries) →
        Goes tree place pieces target node → Goes tree place ([] :: pieces) target node
  /-- A single dot stays in a directory that may be entered. -/
  | stay {place target : List Name} {pieces : List Text} {node : Node} : tree.IsOpen place →
      Goes tree place pieces target node → Goes tree place (Path.dot :: pieces) target node
  /-- A double dot goes to the directory above. -/
  | up {place target : List Name} {pieces : List Text} {node : Node} : tree.IsOpen place →
      Goes tree place.dropLast pieces target node →
        Goes tree place (Path.dotDot :: pieces) target node
  /-- A name goes to the entry of that name. -/
  | enter {place target : List Name} {name : Name} {pieces : List Text} {node inner : Node} :
      tree.HasEntry place name inner → inner.isLink = false →
        Goes tree (place ++ [name]) pieces target node →
        Goes tree place (name :: pieces) target node
  /-- The name of a link goes to where the link leads, which is seen from the place. -/
  | follow {place target : List Name} {name : Name} {text : Text} {pieces : List Text}
      {node : Node} : tree.HasEntry place name (.link text) → text ≠ [] →
        Goes tree (if (Path.ofText text).isAbsolute then [] else place)
          (Text.splitOn '/' text ++ pieces) target node →
        Goes tree place (name :: pieces) target node

/-- A text leads to a node at a place. It is seen from the root directory, if it begins with a
slash, and else from the working directory. -/
structure Leads (tree : Tree) (text : Text) (place : List Name) (node : Node) : Prop where
  /-- There is a text. -/
  ne_nil : text ≠ []
  /-- It has no null character. -/
  null_not_mem : '\x00' ∉ text
  /-- Its pieces lead to the node. -/
  goes : tree.Goes (if (Path.ofText text).isAbsolute then [] else tree.cwd.names)
    (Text.splitOn '/' text) place node

/-- A place is reached from the root directory by its own names. -/
inductive IsRooted (tree : Tree) : List Name → Prop
  /-- The root directory is. -/
  | root : IsRooted tree []
  /-- What is no link is, if its directory is. -/
  | entry {place : List Name} {name : Name} {inner : Node} : IsRooted tree place →
      tree.HasEntry place name inner → inner.isLink = false → IsRooted tree (place ++ [name])

namespace IsRooted

/-- The names of such a place are names that entries can have. -/
theorem isName (h : tree.IsRooted place) : ∀ name ∈ place, Path.IsName name := by
  induction h with
  | root => exact nofun
  | entry _ hentry _ ih =>
    exact List.forall_mem_append.mpr ⟨ih, List.forall_mem_singleton.mpr hentry.isName⟩

/-- The directory above such a place is one. -/
theorem dropLast (h : tree.IsRooted place) : tree.IsRooted place.dropLast := by
  cases h with
  | root => exact .root
  | entry hplace _ _ => rwa [List.dropLast_concat]

/-- Where pieces lead from such a place, its names and the pieces lead from the root directory. -/
theorem goes (h : tree.IsRooted place) (hgoes : tree.Goes place pieces target node) :
    tree.Goes [] (place ++ pieces) target node := by
  induction h generalizing pieces with
  | root => exact hgoes
  | entry _ hentry hlink ih =>
    rw [List.append_assoc]
    exact ih (.enter hentry hlink hgoes)

/-- The names so far, after a double dot, are those of the directory above. -/
theorem withName_dotDot (h : tree.IsRooted place) :
    Path.withName true place.reverse Path.dotDot = place.dropLast.reverse := by
  cases h with
  | root => rfl
  | @entry outer name _ _ hentry _ =>
    rw [List.reverse_append, List.dropLast_concat]
    exact if_neg hentry.isName.2.2.1

end IsRooted

/-- The names so far, after a name that an entry can have, are those of the entry. -/
theorem withName_isName (hname : Path.IsName name) (place : List Name) :
    Path.withName true place.reverse name = (place ++ [name]).reverse := by
  rw [List.reverse_append]
  exact if_pos hname.2.2.1

/-- Without links, pieces lead from a place to where their names lead with double dots cancelled,
and that place is reached by its own names. -/
theorem Goes.collapse (hlinks : tree.root.LinkFree) (hplace : tree.IsRooted place)
    (h : tree.Goes place pieces target node) :
    target = Path.collapseNames true place.reverse (Path.stepsOf pieces) ∧ tree.IsRooted target ∧
      tree.root.get? target = some node := by
  induction h with
  | @here place _ hget =>
    have hkept : Path.collapseNames true place.reverse (Path.stepsOf []) = place := by
      have hnone : Path.dotDot ∉ Path.stepsOf [] := List.not_mem_nil
      rw [Path.collapseNames_of_not_mem hnone, List.reverse_reverse]
      exact List.append_nil place
    exact ⟨hkept.symm, hplace, hget⟩
  | slash _ _ ih => exact ih hplace
  | stay _ _ ih => exact ih hplace
  | up _ _ ih =>
    have hup : Path.dotDot ≠ [] ∧ Path.dotDot ≠ Path.dot := by decide
    rw [Path.stepsOf_cons hup, Path.collapseNames_cons, hplace.withName_dotDot]
    exact ih hplace.dropLast
  | @enter place target name _ _ _ hentry hlink _ ih =>
    obtain ⟨hne, hdot, -, -⟩ := hentry.isName
    rw [Path.stepsOf_cons ⟨hne, hdot⟩, Path.collapseNames_cons, withName_isName hentry.isName]
    exact ih (hplace.entry hentry hlink)
  | follow hentry _ _ _ =>
    cases hlinks.of_get hentry.get?_eq

/-- An empty piece only asks for a directory. -/
theorem goes_slash_iff : tree.Goes place ([] :: pieces) target node ↔
    (∃ permissions entries, tree.root.get? place = some (.directory permissions entries)) ∧
      tree.Goes place pieces target node := by
  constructor
  · intro h
    cases h with
    | slash hget hgoes => exact ⟨⟨_, _, hget⟩, hgoes⟩
    | enter hentry _ _ => exact absurd rfl hentry.isName.1
    | follow hentry _ _ => exact absurd rfl hentry.isName.1
  · rintro ⟨⟨permissions, entries, hget⟩, hgoes⟩
    exact .slash hget hgoes

/-- Empty pieces only ask for a directory, if there are any. -/
theorem goes_slashes_iff {slashes : List Text} (hslashes : ∀ piece ∈ slashes, piece = [])
    (hne : slashes ≠ []) : tree.Goes place (slashes ++ pieces) target node ↔
      (∃ permissions entries, tree.root.get? place = some (.directory permissions entries)) ∧
        tree.Goes place pieces target node := by
  induction slashes with
  | nil => exact absurd rfl hne
  | cons piece slashes ih =>
    obtain ⟨rfl, hrest⟩ := List.forall_mem_cons.mp hslashes
    rw [List.cons_append, goes_slash_iff]
    by_cases hempty : slashes = []
    · rw [hempty, List.nil_append]
    · rw [ih hrest hempty, and_self_left]

/-- The text of a normal path leads where its names lead from the root directory. -/
theorem leads_toText_iff {path : Path} (hpath : path.IsNormal) :
    tree.Leads path.toText target node ↔ '\x00' ∉ path.toText ∧
      (∃ permissions entries, tree.root = .directory permissions entries) ∧
        tree.Goes [] path.names target node := by
  have habsolute : (Path.ofText path.toText).isAbsolute = true := by
    rw [Path.ofText_toText hpath]
    exact hpath.isAbsolute
  obtain ⟨slashes, hslashes, hne, hpieces⟩ :=
    Path.splitOn_toText hpath.isAbsolute hpath.isClean
  have hgoes : tree.Goes [] (Text.splitOn '/' path.toText) target node ↔
      (∃ permissions entries, tree.root = .directory permissions entries) ∧
        tree.Goes [] path.names target node := by
    rw [hpieces, goes_slashes_iff hslashes hne]
    simp only [Node.get?, Option.some.injEq]
  constructor
  · rintro ⟨-, hnull, hleads⟩
    rw [if_pos habsolute, hgoes] at hleads
    exact ⟨hnull, hleads⟩
  · rintro ⟨hnull, hleads⟩
    refine ⟨Path.toText_ne_nil hpath.isAbsolute, hnull, ?_⟩
    rwa [if_pos habsolute, hgoes]

section Lookup

variable {onLink : List Name → List Name → Except Cause Target}

/-- A double dot leads to the directory above, from a directory that may be entered. -/
theorem goes_dotDot_iff : tree.Goes place (Path.dotDot :: pieces) target node ↔
    tree.IsOpen place ∧ tree.Goes place.dropLast pieces target node := by
  constructor
  · intro h
    cases h with
    | up hopen hgoes => exact ⟨hopen, hgoes⟩
    | enter hentry _ _ => exact absurd rfl hentry.isName.2.2.1
    | follow hentry _ _ => exact absurd rfl hentry.isName.2.2.1
  · rintro ⟨hopen, hgoes⟩
    exact .up hopen hgoes

/-- Without links, a name leads to the entry of that name. -/
theorem goes_name_iff (hlinks : tree.root.LinkFree) (hname : Path.IsName name) :
    tree.Goes place (name :: pieces) target node ↔
      ∃ inner, tree.HasEntry place name inner ∧ tree.Goes (place ++ [name]) pieces target node := by
  constructor
  · intro h
    cases h with
    | slash _ _ => exact absurd rfl hname.1
    | stay _ _ => exact absurd rfl hname.2.1
    | up _ _ => exact absurd rfl hname.2.2.1
    | enter hentry _ hgoes => exact ⟨_, hentry, hgoes⟩
    | follow hentry _ _ => cases hlinks.of_get hentry.get?_eq
  · rintro ⟨inner, hentry, hgoes⟩
    refine .enter hentry ?_ hgoes
    cases hlinks.of_get hentry.get?_eq <;> rfl

/-- Without links, pieces that are all clean names lead to where looking the names up leads. -/
theorem goes_iff_walkNames (hlinks : tree.root.LinkFree)
    (hnames : ∀ name ∈ names, name ≠ [] ∧ name ≠ Path.dot ∧ '/' ∉ name) :
    tree.Goes place names target node ↔
      tree.walkNames true onLink place names = .ok (.found target node) := by
  induction names generalizing place with
  | nil =>
    rw [walkNames]
    constructor
    · rintro ⟨hget⟩
      rw [hget]
    · intro h
      split at h
      · rename_i hget
        cases h
        exact .here hget
      · cases h
  | cons name names ih =>
    obtain ⟨hclean, hrest⟩ := List.forall_mem_cons.mp hnames
    by_cases hup : name = Path.dotDot
    · subst hup
      rw [goes_dotDot_iff, ih hrest]
      constructor
      · rintro ⟨⟨permissions, entries, hget, hreach⟩, hwalk⟩
        rwa [walkNames_dotDot hget hreach]
      · intro h
        obtain ⟨permissions, entries, hget, hopen⟩ := exists_directory_of_walkNames h
        have hreach := (hopen (by decide)).1
        rw [walkNames_dotDot hget hreach] at h
        exact ⟨⟨permissions, entries, hget, hreach⟩, h⟩
    · have hname : Path.IsName name := ⟨hclean.1, hclean.2.1, hup, hclean.2.2⟩
      rw [goes_name_iff hlinks hname]
      constructor
      · rintro ⟨inner, ⟨⟨permissions, entries, hget, hreach⟩, -, hsize, hinner⟩, hgoes⟩
        have hfree := hlinks.of_get hinner
        rw [Node.get?_concat hget] at hinner
        rw [walkNames_directory hget hreach hsize hclean.1 hclean.2.1 hup, hinner]
        cases hfree <;> exact (ih hrest).mp hgoes
      · intro h
        obtain ⟨permissions, entries, hget, hopen⟩ := exists_directory_of_walkNames h
        obtain ⟨hreach, hsize⟩ := hopen hclean.1
        have hinner := Node.get?_concat hget name
        rw [walkNames_directory hget hreach hsize hclean.1 hclean.2.1 hup] at h
        cases hlookup : entries.lookup name with
        | none =>
          rw [hlookup] at h
          dsimp only at h
          split at h <;> cases h
        | some inner =>
          rw [hlookup] at h hinner
          have hfree := hlinks.of_get hinner
          refine ⟨inner, ⟨⟨permissions, entries, hget, hreach⟩, hname, hsize, hinner⟩, ?_⟩
          cases hfree <;> exact (ih hrest).mpr h

end Lookup

/-- In a tree without links, looking a normal path up finds what its text leads to, if the path is
not too long. -/
theorem locate_eq_found_iff (hlinks : tree.root.LinkFree) {path : Path} (hpath : path.IsNormal)
    (hshort : ¬pathLimit ≤ Utf8.size path.toText)
    (hroot : ∃ permissions entries, tree.root = .directory permissions entries) :
    tree.locate true path = .ok (.found target node) ↔ tree.Leads path.toText target node := by
  have hwalk : tree.walk true linkLimit [] path.names =
      tree.walkNames true (tree.walk true 39) [] path.names := rfl
  rw [leads_toText_iff hpath, and_iff_right hroot, goes_iff_walkNames hlinks hpath.isClean, ← hwalk]
  unfold locate
  rw [start?_of_isAbsolute hpath.isAbsolute, if_neg hshort]
  dsimp only
  by_cases hnull : '\x00' ∈ path.toText
  · rw [if_pos hnull]
    exact ⟨nofun, fun h => absurd hnull h.1⟩
  · rw [if_neg hnull, and_iff_right hnull]
    cases tree.walk true linkLimit [] path.names with
    | error cause => exact ⟨nofun, nofun⟩
    | ok found => simp only [Except.ok.injEq]

/-- With a working directory that exists, in a tree without links, the absolute form of a text leads
to where the text leads. -/
theorem Leads.absolute (hlinks : tree.root.LinkFree) (hcwd : tree.cwd.IsNormal)
    {workplace : List Name} {permissions : Permissions} {entries : List (Name × Node)}
    (hwork : tree.Leads tree.cwd.toText workplace (.directory permissions entries)) {text : Text}
    (h : tree.Leads text place node) :
    tree.Leads ((Path.ofText text).absolute tree.cwd).toText place node := by
  obtain ⟨hnull, hroot, hcwdGoes⟩ := (leads_toText_iff hcwd).mp hwork
  obtain ⟨hworkplace, hrooted, -⟩ := hcwdGoes.collapse hlinks .root
  have hsame : workplace = tree.cwd.names := by
    rw [hworkplace, Path.stepsOf_eq_self hcwd.isClean, Path.collapseNames_of_not_mem hcwd.noDotDot]
    rfl
  have hstart :
      tree.IsRooted (if (Path.ofText text).isAbsolute then [] else tree.cwd.names) := by
    split
    · exact .root
    · exact hsame ▸ hrooted
  obtain ⟨hplace, hreached, hget⟩ := h.goes.collapse hlinks hstart
  refine (leads_toText_iff (Path.absolute_ofText_isNormal text hcwd)).mpr ⟨?_, hroot, ?_⟩
  · exact Path.not_mem_toText_absolute (by decide) (by decide) hcwd hnull h.null_not_mem
  · have hnames : ((Path.ofText text).absolute tree.cwd).names = place :=
      (Path.names_absolute hcwd text).trans hplace.symm
    have hgoes := hreached.goes (.here hget)
    rw [List.append_nil] at hgoes
    rwa [hnames]

/-- The absolute form of a text is a normal path, and its own absolute form. In a tree without
links, if the working directory exists, it leads to where the text leads, and it is looked up there
if it is not too long to be asked about. -/
theorem absolute_keeps_meaning (tree : Tree) (hcwd : tree.cwd.IsNormal) (text : Text) :
    (tree.root.LinkFree →
      (∃ workplace permissions entries,
        tree.Leads tree.cwd.toText workplace (.directory permissions entries)) →
      ∀ place node, tree.Leads text place node →
        tree.Leads ((Path.ofText text).absolute tree.cwd).toText place node ∧
        (¬pathLimit ≤ Utf8.size ((Path.ofText text).absolute tree.cwd).toText →
          tree.locate true ((Path.ofText text).absolute tree.cwd) = .ok (.found place node))) ∧
    ((Path.ofText text).absolute tree.cwd).IsNormal ∧
    (Path.ofText ((Path.ofText text).absolute tree.cwd).toText).absolute tree.cwd =
      (Path.ofText text).absolute tree.cwd := by
  have hnormal := Path.absolute_ofText_isNormal text hcwd
  refine ⟨?_, hnormal, ?_⟩
  · rintro hlinks ⟨workplace, permissions, entries, hwork⟩ place node hleads
    obtain ⟨-, hroot, -⟩ := (leads_toText_iff hcwd).mp hwork
    have hsame := Leads.absolute hlinks hcwd hwork hleads
    exact ⟨hsame, fun hshort => (locate_eq_found_iff hlinks hnormal hshort hroot).mpr hsame⟩
  · rw [Path.ofText_toText hnormal, hnormal.absolute_eq]

/-- A file in a directory, in a tree whose working directory is another one. -/
def spelled : Tree where
  root := .directory .ofDirectory
    [("w".toList, .directory .ofDirectory []),
      ("p".toList, .directory .ofDirectory [("x".toList, .file .ofFile [])])]
  cwd := ⟨.root, ["w".toList]⟩

/-- Two slashes, a double dot at the root directory and a single dot do not keep the file from being
found, and neither are they needed. -/
theorem absolute_keeps_meaning_spelled :
    spelled.Leads "//../p/./x".toList ["p".toList, "x".toList] (.file .ofFile []) ∧
      spelled.Leads "//p/x".toList ["p".toList, "x".toList] (.file .ofFile []) ∧
      spelled.locate true (.ofText "//p/x".toList) =
        .ok (.found ["p".toList, "x".toList] (.file .ofFile [])) := by
  have hlinks : spelled.root.LinkFree := by
    refine .directory (List.forall_mem_cons.mpr ⟨.directory nofun, ?_⟩)
    refine List.forall_mem_singleton.mpr (.directory ?_)
    exact List.forall_mem_singleton.mpr (.file .ofFile [])
  have hcwd : spelled.cwd.IsNormal := by decide
  have hwork : spelled.Leads spelled.cwd.toText ["w".toList] (.directory .ofDirectory []) :=
    ⟨by decide, by decide,
      .slash rfl (.enter ⟨⟨_, _, rfl, rfl⟩, by decide, by decide, rfl⟩ rfl (.here rfl))⟩
  have hopen : spelled.IsOpen [] := ⟨_, _, rfl, rfl⟩
  have hp : spelled.HasEntry [] "p".toList
      (.directory .ofDirectory [("x".toList, .file .ofFile [])]) :=
    ⟨hopen, by decide, by decide, rfl⟩
  have hinner : spelled.IsOpen ["p".toList] := ⟨_, _, rfl, rfl⟩
  have hx : spelled.HasEntry ["p".toList] "x".toList (.file .ofFile []) :=
    ⟨hinner, by decide, by decide, rfl⟩
  have hleads : spelled.Leads "//../p/./x".toList ["p".toList, "x".toList] (.file .ofFile []) :=
    ⟨by decide, by decide, .slash rfl (.slash rfl (.up hopen (.enter hp rfl (.stay hinner
      (.enter hx rfl (.here rfl))))))⟩
  obtain ⟨hagain, hfound⟩ := (absolute_keeps_meaning spelled hcwd "//../p/./x".toList).1 hlinks
    ⟨_, _, _, hwork⟩ _ _ hleads
  have hpath : (Path.ofText "//../p/./x".toList).absolute spelled.cwd =
      Path.ofText "//p/x".toList := by decide
  have htext : (Path.ofText "//p/x".toList).toText = "//p/x".toList := by decide
  rw [hpath, htext] at hagain hfound
  exact ⟨hleads, hagain, hfound (by decide)⟩

/-- A link in the working directory leads into another one. -/
def linked : Tree where
  root := .directory .ofDirectory
    [("w".toList, .directory .ofDirectory [("l".toList, .link "/p/q".toList)]),
      ("p".toList, .directory .ofDirectory [("q".toList, .directory .ofDirectory [])])]
  cwd := ⟨.root, ["w".toList]⟩

/-- Behind a link, the directory above is not the one of the last name. -/
theorem exists_meaning_changed : ¬ ∀ (tree : Tree) (text : Text) (place : List Name) (node : Node),
    tree.cwd.IsNormal → tree.Leads text place node →
      tree.Leads ((Path.ofText text).absolute tree.cwd).toText place node := by
  intro hall
  have hw : linked.HasEntry ["w".toList] "l".toList (.link "/p/q".toList) :=
    ⟨⟨_, _, rfl, rfl⟩, by decide, by decide, rfl⟩
  have hp : linked.HasEntry [] "p".toList
      (.directory .ofDirectory [("q".toList, .directory .ofDirectory [])]) :=
    ⟨⟨_, _, rfl, rfl⟩, by decide, by decide, rfl⟩
  have hq : linked.HasEntry ["p".toList] "q".toList (.directory .ofDirectory []) :=
    ⟨⟨_, _, rfl, rfl⟩, by decide, by decide, rfl⟩
  have hleads : linked.Leads "l/..".toList ["p".toList]
      (.directory .ofDirectory [("q".toList, .directory .ofDirectory [])]) :=
    ⟨by decide, by decide, .follow hw (by decide) (.slash rfl (.enter hp rfl (.enter hq rfl
      (.up ⟨_, _, rfl, rfl⟩ (.here rfl)))))⟩
  have hcwd : linked.cwd.IsNormal := by decide
  obtain ⟨-, -, hgoes⟩ := (leads_toText_iff hcwd).mp (hall linked "l/..".toList _ _ hcwd hleads)
  cases hgoes with
  | enter hentry _ hrest => cases hrest
  | follow hentry _ _ => cases hentry.get?_eq

end Tree

end SourceLoom.Files
