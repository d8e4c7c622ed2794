import SourceLoom.Proofs.Files.Places
import SourceLoom.Proofs.Path.Slashes
import SourceLoom.Proofs.Traversal.Disk
import SourceLoom.Proofs.Traversal.Merging

/-!
# Files and their paths

In a tree without links a file is at one place, but it has two normal paths: one begins with a
single slash and the other with exactly two. A session takes them for two files, and gives both if
an entry, a reference or a convention spells the two slashes. Nothing else makes it give a file
twice.
-/

namespace SourceLoom.Traversal

open Reference BreadthFirst

section Given

variable {disk : Disk} {plan : Plan} {session later : Session} {P : Path → Prop}

/-- What holds of the first file of a sweep, and passes from every file taken to those that it
imports, holds of all files taken. -/
theorem Disk.Ready.taken_induct {root : Option Path} {around : List Path} {x : Path}
    (h : disk.Ready root around x) (hfirst : P x)
    (himports : ∀ file ∈ (disk.sweep plan root around x).taken.map Prod.fst, ∀ target,
      P file → disk.Imports plan.conventions root file target → P target) :
    ∀ file ∈ (disk.sweep plan root around x).taken.map Prod.fst, P file := by
  intro file hmem
  obtain ⟨n, hwithin, hops⟩ := (h.mem_taken_fst_iff plan file).mp hmem
  induction hops with
  | here => exact hfirst
  | @hop n y z hchain hstep ih =>
    have hshorter : Within plan.maxDepth n := fun limit hlimit =>
      (Nat.le_succ n).trans (hwithin limit hlimit)
    have hbefore := (h.mem_taken_fst_iff plan y).mpr ⟨n, hshorter, hchain⟩
    exact himports y hbefore z (ih hbefore hshorter) hstep.1

/-- What holds of an entry that is a regular file, and passes from every file given to those that
it imports, holds of all files that the entry gives. -/
theorem Disk.Follows.given_induct {entry : Text} {answer : Except Trouble (List Path)}
    {reached : List (Path × Nat)} (h : disk.Follows plan entry session answer later reached)
    (ha : session.Aligned)
    (hentry : disk.isFile (disk.place entry) = .ok true → P (disk.place entry))
    (himports : ∀ root, disk.rootOf plan.conventions (disk.place entry) = .ok root →
      ∀ file ∈ answer.toOption.toList.flatten, ∀ target,
        P file → disk.Imports plan.conventions root file target → P target) :
    ∀ file ∈ answer.toOption.toList.flatten, P file := by
  cases h with
  | skipped _ _ _ => exact fun file hmem => absurd hmem List.not_mem_nil
  | rootless _ _ _ => exact fun file hmem => absurd hmem List.not_mem_nil
  | @searched root _ hfile hnew hroot _ _ =>
    have hready := disk.ready_place ha.nodup hnew hfile hroot
    simp only [flatten_toOption_ok] at himports ⊢
    exact hready.taken_induct (hentry hfile) (himports root hroot)

/-- The same of several entries. -/
theorem Disk.followEach_given_induct {entries : List Text} {history after : History}
    {files : List Path} (ha : session.Aligned)
    (hentries : ∀ entry ∈ entries, disk.isFile (disk.place entry) = .ok true →
      P (disk.place entry))
    (himports : ∀ entry ∈ entries, ∀ root,
      disk.rootOf plan.conventions (disk.place entry) = .ok root →
      ∀ file ∈ files, ∀ target,
        P file → disk.Imports plan.conventions root file target → P target)
    (hrun : (followEach disk.surroundings plan entries session).run history =
      ((.ok files, later), after)) : ∀ file ∈ files, P file := by
  induction entries generalizing session history files with
  | nil =>
    cases hrun
    exact fun file hmem => absurd hmem List.not_mem_nil
  | cons entry entries ih =>
    obtain ⟨answer, next, reached, read, between, hfollows, hnext, -, hfollow⟩ :=
      disk.follow_run plan ha entry history
    rcases followEach_cons_cases hrun with ⟨trouble, hnone, -⟩ |
      ⟨first, next', between', _ | more, hfiles, hfollow', hothers⟩
    · cases hnone
    · cases hfiles
    · cases hfiles
      cases hfollow.symm.trans hfollow'
      have hgiven := hfollows.given_induct ha (hentries entry List.mem_cons_self)
      simp only [flatten_toOption_ok] at hgiven
      have hfirsts := hgiven fun root hroot file hmem =>
        himports entry List.mem_cons_self root hroot file (List.mem_append_left _ hmem)
      have hmore := ih hnext (fun other hother => hentries other (List.mem_cons_of_mem _ hother))
        (fun other hother root hroot file hmem => himports other (List.mem_cons_of_mem _ hother)
          root hroot file (List.mem_append_right _ hmem)) hothers
      exact List.forall_mem_append.mpr ⟨hfirsts, hmore⟩

/-- The same of the answer for several entries. -/
theorem Disk.followImports_induct {entries : List Text} {files : List Path}
    (hentries : ∀ entry ∈ entries, disk.isFile (disk.place entry) = .ok true →
      P (disk.place entry))
    (himports : ∀ entry ∈ entries, ∀ root,
      disk.rootOf plan.conventions (disk.place entry) = .ok root →
      ∀ file ∈ files, ∀ target,
        P file → disk.Imports plan.conventions root file target → P target)
    (hanswer : disk.followImports plan entries = .ok files) : ∀ file ∈ files, P file := by
  have hfresh : Reached disk.world plan [] {} [] := .fresh
  unfold followImports surroundings at hanswer
  rw [hfresh.followAll_eq] at hanswer
  cases hrun : (followEach disk.world.surroundings plan entries {}).run [] with
  | mk result after =>
    obtain ⟨answer, later⟩ := result
    rw [hrun] at hanswer
    cases hanswer
    exact followEach_given_induct Session.aligned_fresh hentries himports hrun

end Given

section Slashes

variable {disk : Disk} {conventions : Conventions} {root : Option Path} {file : Path}

/-- What a text names after an alias mark, or all of it. -/
def afterMark (conventions : Conventions) (reference : Text) : Text :=
  (Text.dropLeading? conventions.aliasMark reference).getD reference

/-- The place that a reference names begins with a single slash, unless the reference begins with
two. -/
theorem place?_start {cwd place : Path} {reference : Text} (hfile : file.IsNormal)
    (hstart : file.start = .root) (hroot : ∀ directory ∈ root, directory.start = .root)
    (hfolder : Start.ofText conventions.aliasFolder ≠ .doubleRoot)
    (hreference : Start.ofText (afterMark conventions reference) ≠ .doubleRoot)
    (h : place? conventions cwd file root reference = some place) : place.start = .root := by
  unfold afterMark at hreference
  unfold place? at h
  split at h
  · rename_i rest hrest
    rw [hrest, Option.getD_some] at hreference
    obtain ⟨directory, hdirectory, rfl⟩ := Option.map_eq_some_iff.mp h
    exact Path.start_child (Path.start_child (hroot directory hdirectory) hfolder) hreference
  · rename_i hnone
    rw [hnone, Option.getD_none] at hreference
    cases h
    have habsolute : (file.absolute cwd).parent.start = .root := by
      change (cwd.append file).start = .root
      rw [Path.append_of_isAbsolute hfile.isAbsolute]
      exact hstart
    exact Path.start_child habsolute hreference

/-- Every candidate for a clean place that begins with a single slash begins with one, unless an
ending begins with a slash. -/
theorem candidates_start {cwd place path : Path} (hcwd : cwd.start = .root)
    (hplace : place.start = .root) (hclean : place.IsClean)
    (hendings : ∀ ending ∈ conventions.extensions, ending.head? ≠ some '/')
    (h : path ∈ candidates conventions cwd place) : path.start = .root := by
  have hindex : ∀ ending : Text, Start.ofText ("index".toList ++ ending) = .here := fun _ => rfl
  simp only [candidates, List.cons_append, List.mem_cons, List.mem_append, List.mem_map] at h
  rcases h with rfl | ⟨ending, hending, rfl⟩ | ⟨ending, -, rfl⟩
  · exact Path.start_absolute_of_root hcwd hplace
  · exact Path.start_absolute_of_root hcwd
      (Path.start_ofText_append hplace hclean (hendings ending hending))
  · refine Path.start_absolute_of_root hcwd (Path.start_child hplace ?_)
    rw [hindex]
    decide

/-- The root of the project of a file that begins with a single slash begins with one. -/
theorem Disk.rootOf_start (hfile : file.IsNormal) (hstart : file.start = .root)
    (h : disk.rootOf conventions file = .ok root) :
    ∀ directory ∈ root, directory.start = .root := by
  rw [← disk.world_findRoot conventions file []] at h
  rintro directory ⟨⟩
  have hmem := List.mem_of_mem_take (firstWhere_found h).1
  have habove : directory.start = (disk.cwd.append file).start := Path.start_of_mem_upwardFrom hmem
  rw [habove, Path.append_of_isAbsolute hfile.isAbsolute]
  exact hstart

/-- Nothing from which a session on a disk reads a path begins with exactly two slashes while it
follows entries and gives files. -/
structure Disk.SinglySlashed (disk : Disk) (conventions : Conventions) (entries : List Text)
    (files : List Path) : Prop where
  /-- The working directory does not. -/
  cwd : disk.cwd.start ≠ .doubleRoot
  /-- No entry does. -/
  entries : ∀ entry ∈ entries, Start.ofText entry ≠ .doubleRoot
  /-- The folder for aliases does not. -/
  aliasFolder : Start.ofText conventions.aliasFolder ≠ .doubleRoot
  /-- No ending begins with a slash, which could come after another one. -/
  extensions : ∀ ending ∈ conventions.extensions, ending.head? ≠ some '/'
  /-- No reference in a given file does, nor what follows its alias mark. -/
  references : ∀ file ∈ files, ∀ text, disk.readText file = .ok text →
    ∀ reference ∈ extract text, Start.ofText (afterMark conventions reference) ≠ .doubleRoot

namespace Disk.SinglySlashed

variable {entries : List Text} {files : List Path}
  (h : disk.SinglySlashed conventions entries files)

include h

/-- The working directory begins with a single slash. -/
theorem cwd_start : disk.cwd.start = .root :=
  Path.start_of_isAbsolute disk.cwd_isNormal.isAbsolute h.cwd

/-- The files that the entries name begin with a single slash. -/
theorem place_start {entry : Text} (hentry : entry ∈ entries) :
    (disk.place entry).start = .root :=
  Path.start_absolute h.cwd_start (h.entries entry hentry)

/-- What a given file that begins with a single slash imports begins with one. -/
theorem imports_start {target : Path} (hgiven : file ∈ files) (hfile : file.IsNormal)
    (hstart : file.start = .root)
    (hroot : ∀ directory ∈ root, directory.IsClean ∧ directory.start = .root)
    (himports : disk.Imports conventions root file target) : target.start = .root := by
  obtain ⟨text, hread, reference, hmem, hlocal, hresolved⟩ := himports
  rw [← world_resolved hfile.isAbsolute hlocal []] at hresolved
  obtain ⟨place, hplace, htarget⟩ := exists_mem_candidates hresolved
  rw [Path.ofText_toText hfile] at hplace
  have hclean : place.IsClean := place?_isClean disk.cwd_isNormal hfile.isClean
    (fun directory hdirectory => (hroot directory hdirectory).1) hplace
  have hstarts : place.start = .root := place?_start hfile hstart
    (fun directory hdirectory => (hroot directory hdirectory).2) h.aliasFolder
    (h.references file hgiven text hread reference hmem) hplace
  exact candidates_start h.cwd_start hstarts hclean h.extensions htarget

end Disk.SinglySlashed

end Slashes

section Trees

variable {tree : Files.Tree} {hcwd : tree.cwd.IsNormal} {plan : Plan} {entries : List Text}
  {files : List Path}

/-- The files of an answer are regular files at normal paths. -/
theorem Disk.followImports_isFile {disk : Disk}
    (hanswer : disk.followImports plan entries = .ok files) :
    ∀ file ∈ files, file.IsNormal ∧ disk.isFile file = .ok true := by
  refine followImports_induct (fun entry _ hfile => ⟨disk.place_isNormal entry, hfile⟩) ?_ hanswer
  intro entry _ root hroot file _ target hfile himports
  exact himports.isFile (rootOf_isClean (disk.place_isNormal entry) hroot) hfile.1.isAbsolute

/-- If nothing begins with exactly two slashes, the files of an answer begin with a single one. -/
theorem Disk.SinglySlashed.followImports_start {disk : Disk}
    (h : disk.SinglySlashed plan.conventions entries files)
    (hanswer : disk.followImports plan entries = .ok files) :
    ∀ file ∈ files, file.start = .root := by
  have hboth : ∀ file ∈ files, file.IsNormal ∧ file.start = .root := by
    refine followImports_induct
      (fun entry hentry _ => ⟨disk.place_isNormal entry, h.place_start hentry⟩) ?_ hanswer
    intro entry hentry root hroot file hgiven target hfile himports
    have hclean := rootOf_isClean (disk.place_isNormal entry) hroot
    have hstart := rootOf_start (disk.place_isNormal entry) (h.place_start hentry) hroot
    refine ⟨(himports.isFile hclean hfile.1.isAbsolute).1, ?_⟩
    exact h.imports_start hgiven hfile.1 hfile.2
      (fun directory hdirectory => ⟨hclean directory hdirectory, hstart directory hdirectory⟩)
      himports
  exact fun file hmem => (hboth file hmem).2

/-- In a tree without links, two paths in an answer lead to the same place just when they have the
same names. If they are not the same path, one of them begins with exactly two slashes; and if
nothing that the session reads a path from begins with exactly two slashes, they are the same. -/
theorem Disk.followImports_places (hlinks : tree.root.LinkFree)
    (hanswer : (Disk.ofTree tree hcwd).followImports plan entries = .ok files) :
    ∀ p ∈ files, ∀ q ∈ files, (tree.SamePlace p q ↔ p.names = q.names) ∧
      (tree.SamePlace p q → p ≠ q → p.start = .doubleRoot ∨ q.start = .doubleRoot) ∧
      ((Disk.ofTree tree hcwd).SinglySlashed plan.conventions entries files →
        tree.SamePlace p q → p = q) := by
  have hfiles := followImports_isFile hanswer
  intro p hp q hq
  obtain ⟨hpnormal, hpfile⟩ := hfiles p hp
  obtain ⟨hqnormal, hqfile⟩ := hfiles q hq
  have hiff := Files.Tree.samePlace_iff hlinks hpnormal hqnormal hpfile hqfile
  refine ⟨hiff, ?_, ?_⟩
  · intro hsame hne
    by_contra hsingle
    obtain ⟨hpsingle, hqsingle⟩ := not_or.mp hsingle
    have hpstart := Path.start_of_isAbsolute hpnormal.isAbsolute hpsingle
    have hqstart := Path.start_of_isAbsolute hqnormal.isAbsolute hqsingle
    exact hne (Path.eq_of_start_names (hpstart.trans hqstart.symm) (hiff.mp hsame))
  · intro hplain hsame
    have hstart := hplain.followImports_start hanswer
    exact Path.eq_of_start_names ((hstart p hp).trans (hstart q hq).symm) (hiff.mp hsame)

/-- A tree with one file, which is empty. -/
def lone : Files.Tree where
  root := .directory .ofDirectory
    [("w".toList, .directory .ofDirectory [("a.js".toList, .file .ofFile [])])]
  cwd := workplace

/-- It has no links. -/
theorem lone_linkFree : lone.root.LinkFree := by
  refine .directory fun entry hentry => ?_
  rw [List.mem_singleton.mp hentry]
  refine .directory fun entry hentry => ?_
  rw [List.mem_singleton.mp hentry]
  exact .file _ _

/-- Its file is given twice if the entries spell it with one slash and with two. -/
theorem followImports_lone : (Disk.ofTree lone workplace_isNormal).followImports {}
    ["/w/a.js".toList, "//w/a.js".toList] =
      .ok [Path.ofText "/w/a.js".toList, Path.ofText "//w/a.js".toList] := by decide +kernel

/-- Two paths in the answer for absolute entries may lead to the same file, even without links. -/
theorem exists_file_twice :
    ¬ ∀ (tree : Files.Tree) (hcwd : tree.cwd.IsNormal) (plan : Plan) (entries : List Text)
      (files : List Path), tree.root.LinkFree →
      (∀ entry ∈ entries, (Path.ofText entry).isAbsolute = true) →
      (Disk.ofTree tree hcwd).followImports plan entries = .ok files →
      ∀ p ∈ files, ∀ q ∈ files, tree.SamePlace p q → p = q := by
  intro h
  have habsolute : ∀ entry ∈ ["/w/a.js".toList, "//w/a.js".toList],
      (Path.ofText entry).isAbsolute = true := by decide +kernel
  have hsame : lone.SamePlace (.ofText "/w/a.js".toList) (.ofText "//w/a.js".toList) :=
    ⟨["w".toList, "a.js".toList], .file .ofFile [], rfl, rfl⟩
  have heq := h lone workplace_isNormal {} _ _ lone_linkFree habsolute followImports_lone _
    List.mem_cons_self _ (List.mem_cons_of_mem _ List.mem_cons_self) hsame
  revert heq
  decide +kernel

/-- The two paths of the file have the same names, so they lead to the same place. Entries that
spell it otherwise give it once. -/
theorem followImports_places_lone :
    lone.SamePlace (.ofText "/w/a.js".toList) (.ofText "//w/a.js".toList) ∧
      ∃ files, (Disk.ofTree lone workplace_isNormal).followImports {}
          ["a.js".toList, "/w/./a.js".toList, "///w//a.js".toList, "../w/a.js".toList] = .ok files ∧
        ∀ p ∈ files, ∀ q ∈ files, lone.SamePlace p q → p = q := by
  constructor
  · have hplaces := Disk.followImports_places lone_linkFree followImports_lone
    obtain ⟨hiff, -, -⟩ := hplaces _ List.mem_cons_self _
      (List.mem_cons_of_mem _ List.mem_cons_self)
    exact hiff.mpr rfl
  · have hanswer : (Disk.ofTree lone workplace_isNormal).followImports {}
        ["a.js".toList, "/w/./a.js".toList, "///w//a.js".toList, "../w/a.js".toList] =
          .ok [Path.ofText "/w/a.js".toList] := by decide +kernel
    have hsingle : (Disk.ofTree lone workplace_isNormal).SinglySlashed {}
        ["a.js".toList, "/w/./a.js".toList, "///w//a.js".toList, "../w/a.js".toList]
        [Path.ofText "/w/a.js".toList] := by
      refine ⟨nofun, by decide +kernel, by decide +kernel, by decide +kernel, ?_⟩
      intro file hfile text hread
      have hempty : (Disk.ofTree lone workplace_isNormal).readText (.ofText "/w/a.js".toList) =
          .ok [] := by decide +kernel
      rw [List.mem_singleton.mp hfile, hempty] at hread
      cases hread
      decide +kernel
    refine ⟨_, hanswer, fun p hp q hq => ?_⟩
    exact (Disk.followImports_places lone_linkFree hanswer p hp q hq).2.2 hsingle

end Trees

end SourceLoom.Traversal
