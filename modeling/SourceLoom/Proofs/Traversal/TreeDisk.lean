import Mathlib.Algebra.Order.Ring.GeomSum
import Mathlib.Data.Fintype.BigOperators
import SourceLoom.Proofs.Files.Entries
import SourceLoom.Proofs.Traversal.World

/-!
# A file tree as a disk

A file tree that nobody changes is a disk. The paths that it can hold are short, and so there are
fewer of them than a session reckons with.
-/

namespace SourceLoom.Traversal

/-- All characters: the code points without the surrogates. -/
def characters : Finset Char := ((Finset.range 0x110000).erase 0xD800).image Char.ofNat

/-- Every character is among them. -/
theorem mem_characters (c : Char) : c ∈ characters := by
  have hvalid := c.valid
  simp only [UInt32.isValidChar, Nat.isValidChar] at hvalid
  refine Finset.mem_image.mpr ⟨c.toNat, Finset.mem_erase.mpr ⟨?_, Finset.mem_range.mpr ?_⟩, ?_⟩
  · change c.val.toNat ≠ _
    omega
  · change c.val.toNat < _
    omega
  · exact Char.ofNat_toNat c

/-- There are fewer characters than code points. -/
theorem card_characters_lt : characters.card < 0x110000 := by
  have hle : characters.card ≤ ((Finset.range 0x110000).erase 0xD800).card := Finset.card_image_le
  rw [Finset.card_erase_of_mem (Finset.mem_range.mpr (by omega)), Finset.card_range] at hle
  omega

/-- The texts that are shorter than a number. There are too many of them to be listed in a proof,
so the definition is kept closed. -/
@[irreducible] def shorter (n : Nat) : Finset Text :=
  (Finset.range n).biUnion fun length =>
    (Fintype.piFinset fun _ : Fin length => characters).image List.ofFn

/-- They are all of these texts. -/
theorem mem_shorter {n : Nat} {text : Text} (h : text.length < n) : text ∈ shorter n := by
  rw [shorter]
  refine Finset.mem_biUnion.mpr ⟨text.length, Finset.mem_range.mpr h, Finset.mem_image.mpr ?_⟩
  refine ⟨text.get, Fintype.mem_piFinset.mpr fun i => mem_characters (text.get i), ?_⟩
  exact List.ofFn_get text

/-- There are fewer of them than numbers with so many digits, if the digits are code points. -/
theorem card_shorter_lt (n : Nat) : (shorter n).card < 0x110000 ^ n := by
  have hone : ∀ length, ((Fintype.piFinset fun _ : Fin length => characters).image
      List.ofFn).card ≤ 0x110000 ^ length := by
    intro length
    refine Finset.card_image_le.trans ?_
    rw [Fintype.card_piFinset_const]
    exact Nat.pow_le_pow_left card_characters_lt.le _
  rw [shorter]
  calc ((Finset.range n).biUnion fun length =>
        (Fintype.piFinset fun _ : Fin length => characters).image List.ofFn).card
      ≤ ∑ length ∈ Finset.range n, ((Fintype.piFinset fun _ : Fin length => characters).image
          List.ofFn).card := Finset.card_biUnion_le
    _ ≤ ∑ length ∈ Finset.range n, 0x110000 ^ length := Finset.sum_le_sum fun k _ => hone k
    _ < 0x110000 ^ n := Nat.geomSum_lt (by omega) fun k hk => Finset.mem_range.mp hk

/-- The normal paths that are not too long are among these. -/
def shortPaths : Finset Path := (shorter Files.pathLimit).image Path.ofText

/-- A normal path is read from its text. -/
theorem mem_shortPaths {path : Path} (hn : path.IsNormal)
    (h : path.toText.length < Files.pathLimit) : path ∈ shortPaths := by
  have htext : path.toText ∈ shorter Files.pathLimit := mem_shorter h
  have hread := Finset.mem_image_of_mem Path.ofText htext
  rw [Path.ofText_toText hn] at hread
  exact hread

/-- There are fewer of them than a session reckons with. -/
theorem card_shortPaths_le : shortPaths.card ≤ pathCount := by
  have hcount : ∀ n, ((shorter n).image Path.ofText).card ≤ Nat.pow 0x110000 n := by
    intro n
    exact Finset.card_image_le.trans (card_shorter_lt n).le
  unfold shortPaths pathCount
  exact hcount Files.pathLimit

/-- Where a regular file is, the path is not too long. -/
theorem length_lt_of_isFile {tree : Files.Tree} {path : Path} (h : tree.isFile path = .ok true) :
    path.toText.length < Files.pathLimit := by
  obtain ⟨place, node, hlocate⟩ := Files.Tree.exists_found h
  have hsize : Utf8.size path.toText < Files.pathLimit := by
    by_contra hlong
    rw [Nat.not_lt] at hlong
    unfold Files.Tree.locate at hlocate
    rw [if_pos hlong] at hlocate
    split at hlocate <;> cases hlocate
  exact (Utf8.length_le_size path.toText).trans_lt hsize

/-- A path that leads to a regular file leads to something. -/
theorem tree_holds_of_isFile {tree : Files.Tree} {path : Path} (h : tree.isFile path = .ok true) :
    tree.holds path = .ok true := by
  obtain ⟨place, node, hlocate⟩ := Files.Tree.exists_found h
  unfold Files.Tree.holds Files.Tree.leadsTo Files.Tree.node
  rw [hlocate]
  rfl

/-- A file tree as a disk. -/
def Disk.ofTree (tree : Files.Tree) (hcwd : tree.cwd.IsNormal) : Disk where
  cwd := tree.cwd
  cwd_isNormal := hcwd
  holds := tree.holds
  isFile := tree.isFile
  readText path := (tree.read path).map fun bytes => Text.unifyNewlines (Utf8.decodeLossy bytes)
  holds_of_isFile _ := tree_holds_of_isFile
  files := shortPaths
  mem_files _ hn h := mem_shortPaths hn (length_lt_of_isFile h)
  fileCount := pathCount
  card_files_le := card_shortPaths_le

/-- Its texts are those that the operations of the tree read. -/
theorem Disk.ofTree_readText (tree : Files.Tree) (hcwd : tree.cwd.IsNormal) (path : Path) :
    (Files.Tree.system.readText path).run.run tree =
      ((Disk.ofTree tree hcwd).readText path, tree) := by
  have hread : (Disk.ofTree tree hcwd).readText path =
      (tree.read path).map fun bytes => Text.unifyNewlines (Utf8.decodeLossy bytes) := rfl
  have hrun : (Files.Tree.system.read path).run.run tree = (tree.read path, tree) := rfl
  rw [hread, Files.System.readText, ExceptT.run_bind, StateT.run_bind, hrun]
  cases tree.read path <;> rfl

/-- The working directory of a small file tree. -/
def workplace : Path := ⟨.root, ["w".toList]⟩

/-- It is given in normal form. -/
theorem workplace_isNormal : workplace.IsNormal := by
  refine ⟨rfl, ?_, by decide⟩
  intro name hname
  rw [List.mem_singleton.mp hname]
  decide

/-- The disk that has just these files, all in the working directory. -/
def Disk.ofFiles (files : List (String × String)) : Disk :=
  .ofTree
    { root := .directory .ofDirectory [("w".toList, .directory .ofDirectory
        (files.map fun file => (file.1.toList, .file .ofFile (Utf8.encode file.2.toList))))]
      cwd := workplace }
    workplace_isNormal

/-- Three files of which the first imports the second and the second the third. -/
def chain : Disk := .ofFiles [("a.js", "import './b';"), ("b.js", "import './c';"), ("c.js", "")]

end SourceLoom.Traversal
