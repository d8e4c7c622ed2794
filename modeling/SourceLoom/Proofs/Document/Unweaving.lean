import SourceLoom.Proofs.Document.Sections
import SourceLoom.Proofs.Minify.Outcome
import SourceLoom.Proofs.Run.Asking

/-!
# Taking documents apart

Weaving files that can be read puts each of them into the document and changes nothing, unless one
of them cannot be minified. A document of nothing but files with banners tells which files went into
it, in their order, by the paths that it shows, and what stands in it for each of them, but for the
blanks at its very end.
-/

namespace SourceLoom

namespace Files.Tree

/-- The text of a file of a tree, if the file can be read. -/
def text? (tree : Tree) (file : Path) : Option Text :=
  match tree.read file with
  | .ok bytes => some (Text.unifyNewlines (Utf8.decodeLossy bytes))
  | .error _ => none

/-- The files that can be read, with their texts. -/
def readable (tree : Tree) (files : List Path) : List (Path × Text) :=
  files.filterMap fun file => (tree.text? file).map fun text => (file, text)

/-- A path without a null character is never refused for one. -/
theorem read_ne_nullInPath {file : Path} (h : '\x00' ∉ file.toText) (tree : Tree) :
    tree.read file ≠ .error .nullInPath := by
  have hlocate : tree.locate true file ≠ .error .nullInPath := by
    rw [locate, if_neg h]
    split
    · nofun
    · split
      · nofun
      · split <;> nofun
  have hnode : tree.node true file ≠ .error .nullInPath := by
    rw [node]
    cases hfound : tree.locate true file with
    | error fault =>
      rintro ⟨⟩
      exact hlocate hfound
    | ok target => cases target <;> nofun
  rw [read]
  cases hfound : tree.node true file with
  | error fault =>
    rintro ⟨⟩
    exact hnode hfound
  | ok found =>
    cases found with
    | file permissions bytes =>
      change (if permissions.read then _ else _) ≠ _
      split <;> nofun
    | directory permissions entries => nofun
    | link target => nofun
    | device permissions =>
      change (if permissions.read then _ else _) ≠ _
      split <;> nofun

/-- A text can only be told of a file whose path has no null character. -/
theorem null_not_mem_of_text? {tree : Tree} {file : Path} {text : Text}
    (h : tree.text? file = some text) : '\x00' ∉ file.toText := by
  intro hnull
  have hread : tree.read file = .error .nullInPath := by
    rw [read, node, locate, if_pos hnull]
    rfl
  rw [text?, hread] at h
  cases h

end Files.Tree

namespace Document

/-- The plan of a document of nothing but files with banners. -/
def filesOnly (base : Path) (level : Option Minify.Level) : Plan where
  base := base
  level := level

/-- A text as it stands in a document. -/
def contentOf (level : Option Minify.Level) (file : Path) (text : Text) :
    Except Minify.Fault Text :=
  match level with
  | none => .ok text
  | some level => minify text file level

/-- A file with its text, and with what stands in a document for it. -/
structure Item where
  /-- The file. -/
  file : Path
  /-- Its text. -/
  text : Text
  /-- What stands in the document for it. -/
  content : Text
  deriving DecidableEq, Repr

/-- The block of an item. -/
def Item.block (level : Option Minify.Level) (item : Item) : Block :=
  ⟨item.file, item.content, level.map fun _ => (item.text.length, item.content.length)⟩

/-- The items of files with texts, if all of them can be minified. -/
def itemsOf (level : Option Minify.Level) : List (Path × Text) → Except Minify.Fault (List Item)
  | [] => .ok []
  | (file, text) :: files =>
    match contentOf level file text with
    | .error fault => .error fault
    | .ok content => (itemsOf level files).map (⟨file, text, content⟩ :: ·)

/-- An item is of a tree: its file has its text there, and its content is what the text becomes. -/
structure Item.IsIn (tree : Files.Tree) (level : Option Minify.Level) (item : Item) : Prop where
  /-- The file has the text. -/
  text : tree.text? item.file = some item.text
  /-- The text becomes the content. -/
  content : contentOf level item.file item.text = .ok item.content

/-- The section that an item has in a document. -/
def sectionOf (cwd base : Path) (item : Item) : Section where
  path := shownPath cwd base item.file
  content := item.content

/-- A document that is woven in a tree when nobody listens. -/
def wovenIn (tree : Files.Tree) (cwd : Path) (plan : Plan) (files : List Path) :
    Except Fault Woven × Files.Tree :=
  (weave Files.Tree.system (fun _ => pure ()) cwd plan files).run.run tree

/-- The block of a file with a text is that of its item. -/
theorem Block.of_eq (level : Option Minify.Level) (file : Path) (text : Text) :
    Block.of level file text =
      (contentOf level file text).map fun content => Item.block level ⟨file, text, content⟩ := by
  cases level <;> rfl

/-- The files of items of a tree can be read there. -/
theorem readable_items {tree : Files.Tree} {level : Option Minify.Level} {items : List Item}
    (h : ∀ item ∈ items, item.IsIn tree level) :
    tree.readable (items.map (·.file)) = items.map fun item => (item.file, item.text) := by
  induction items with
  | nil => rfl
  | cons item items ih =>
    obtain ⟨hitem, hitems⟩ := List.forall_mem_cons.mp h
    rw [List.map_cons, Files.Tree.readable, List.filterMap_cons, hitem.text]
    exact congrArg ((item.file, item.text) :: ·) (ih hitems)

/-- The items of a tree are those of their files. -/
theorem itemsOf_items {tree : Files.Tree} {level : Option Minify.Level} {items : List Item}
    (h : ∀ item ∈ items, item.IsIn tree level) :
    itemsOf level (tree.readable (items.map (·.file))) = .ok items := by
  rw [readable_items h]
  induction items with
  | nil => rfl
  | cons item items ih =>
    obtain ⟨hitem, hitems⟩ := List.forall_mem_cons.mp h
    rw [List.map_cons, itemsOf, hitem.content, ih hitems]
    rfl

/-- Items are of the files that they were made for, with the contents of their texts. -/
theorem itemsOf_eq_ok {level : Option Minify.Level} {files : List (Path × Text)}
    {items : List Item} (h : itemsOf level files = .ok items) :
    (items.map fun item => (item.file, item.text)) = files ∧
      ∀ item ∈ items, contentOf level item.file item.text = .ok item.content := by
  induction files generalizing items with
  | nil =>
    cases h
    exact ⟨rfl, List.forall_mem_nil _⟩
  | cons file files ih =>
    obtain ⟨file, text⟩ := file
    rw [itemsOf] at h
    cases hcontent : contentOf level file text with
    | error fault =>
      rw [hcontent] at h
      cases h
    | ok content =>
      rw [hcontent] at h
      cases hrest : itemsOf level files with
      | error fault =>
        rw [hrest] at h
        cases h
      | ok rest =>
        rw [hrest] at h
        cases h
        obtain ⟨hfiles, hcontents⟩ := ih hrest
        exact ⟨congrArg ((file, text) :: ·) hfiles, List.forall_mem_cons.mpr ⟨hcontent, hcontents⟩⟩

/-- Where items cannot be made, one of the files cannot be minified. -/
theorem itemsOf_eq_error {level : Option Minify.Level} {files : List (Path × Text)}
    {fault : Minify.Fault} (h : itemsOf level files = .error fault) :
    ∃ file ∈ files, contentOf level file.1 file.2 = .error fault := by
  induction files with
  | nil => cases h
  | cons file files ih =>
    obtain ⟨file, text⟩ := file
    rw [itemsOf] at h
    cases hcontent : contentOf level file text with
    | error other =>
      rw [hcontent] at h
      cases h
      exact ⟨(file, text), List.mem_cons_self, hcontent⟩
    | ok content =>
      rw [hcontent] at h
      cases hrest : itemsOf level files with
      | ok rest =>
        rw [hrest] at h
        cases h
      | error other =>
        rw [hrest] at h
        cases h
        obtain ⟨found, hfound, hfault⟩ := ih hrest
        exact ⟨found, List.mem_cons_of_mem _ hfound, hfault⟩

/-- A file that cannot be minified is JSON in which a number of too many digits stands, and files
are minified at all. -/
theorem digits_of_contentOf {level : Option Minify.Level} {file : Path} {text : Text} {count : Nat}
    (h : contentOf level file text = .error (.tooManyDigits count)) :
    level.isSome = true ∧ Minify.Family.ofEnding (Minify.ending file) = .data ∧
      Text.digitLimit < count ∧ Json.HasDigits text count := by
  cases level with
  | none => cases h
  | some level => exact ⟨rfl, Minify.digits_of_minify h⟩

/-- An attempt to read a text ends with what reading the file ends with. -/
theorem run_attempt_readText {ε σ : Type} {files : Files.System (StateM σ)} {file : Path} {state : σ}
    {answer : Except Files.Fault (List UInt8)}
    (h : (files.read file).run.run state = (answer, state)) :
    (Files.attempt (files.readText file) : ExceptT ε (StateM σ) _).run.run state =
      (.ok (answer.map fun bytes => Text.unifyNewlines (Utf8.decodeLossy bytes)), state) := by
  have hanswer : (files.readText file).run.run state =
      (answer.map fun bytes => Text.unifyNewlines (Utf8.decodeLossy bytes), state) := by
    rw [Files.System.readText, Run.Rehearsal.run_bind, h]
    cases answer <;> rfl
  change (Except.ok ((files.readText file).run.run state).1,
    ((files.readText file).run.run state).2) = _
  rw [hanswer]

/-- An attempt to read a text in a tree changes nothing. -/
theorem attempt_readText {ε : Type} (tree : Files.Tree) (file : Path) :
    (Files.attempt (Files.Tree.system.readText file) :
      ExceptT ε (StateM Files.Tree) _).run.run tree =
      (.ok ((tree.read file).map fun bytes => Text.unifyNewlines (Utf8.decodeLossy bytes)), tree) :=
  run_attempt_readText rfl

/-- The files that can be read each have a block, and the others are left out, unless a file cannot
be minified. -/
theorem run_blocks (tree : Files.Tree) (level : Option Minify.Level) {files : List Path}
    (h : ∀ file ∈ files, '\x00' ∉ file.toText) :
    (blocks Files.Tree.system (fun _ => pure ()) level files).run.run tree =
      (((itemsOf level (tree.readable files)).map fun items =>
        items.map (Item.block level)).mapError .minify, tree) := by
  induction files with
  | nil => rfl
  | cons file files ih =>
    obtain ⟨hfile, hfiles⟩ := List.forall_mem_cons.mp h
    rw [blocks, Run.Rehearsal.run_bind, attempt_readText, Files.Tree.readable, List.filterMap_cons]
    cases hread : tree.read file with
    | error fault =>
      have htext : tree.text? file = none := by rw [Files.Tree.text?, hread]
      rw [htext]
      cases fault with
      | nullInPath => exact absurd hread (Files.Tree.read_ne_nullInPath hfile tree)
      | failed cause path => exact ih hfiles
    | ok bytes =>
      have htext : tree.text? file = some (Text.unifyNewlines (Utf8.decodeLossy bytes)) := by
        rw [Files.Tree.text?, hread]
      rw [htext]
      dsimp only [Except.map, Option.map_some]
      generalize Text.unifyNewlines (Utf8.decodeLossy bytes) = text
      rw [Block.of_eq, itemsOf]
      cases contentOf level file text with
      | error fault => rfl
      | ok content =>
        have hlast : (blocks Files.Tree.system (fun _ => pure ()) level files >>=
            fun more => pure (Item.block level ⟨file, text, content⟩ :: more)).run.run tree =
              ((((itemsOf level (tree.readable files)).map (⟨file, text, content⟩ :: ·)).map
                fun items => items.map (Item.block level)).mapError .minify, tree) := by
          rw [Run.Rehearsal.run_bind, ih hfiles]
          cases itemsOf level (tree.readable files) <;> rfl
        -- what is told changes nothing
        dsimp only [Except.map]
        split <;> exact hlast

/-- A document is woven from the files that can be read, unless one of them cannot be minified. -/
theorem wovenIn_eq (tree : Files.Tree) (cwd : Path) (plan : Plan) {files : List Path}
    (h : ∀ file ∈ files, '\x00' ∉ file.toText) :
    wovenIn tree cwd plan files =
      (((itemsOf plan.level (tree.readable files)).map fun items =>
        ofBlocks cwd plan files.length (items.map (Item.block plan.level))).mapError .minify,
          tree) := by
  rw [wovenIn, weave, Run.Rehearsal.run_bind, run_blocks tree plan.level h]
  cases itemsOf plan.level (tree.readable files) <;> rfl

/-- A document of nothing but files with banners is the stripped text of their sections. -/
theorem ofBlocks_text (cwd base : Path) (level : Option Minify.Level) (count : Nat)
    (items : List Item) :
    (ofBlocks cwd (filesOnly base level) count (items.map (Item.block level))).text =
      Text.strip ((items.map (sectionOf cwd base)).flatMap Section.toText) := by
  have hclosing : closing (filesOnly base level) count = [] := rfl
  have hblock (item : Item) : (item.block level).toText cwd (filesOnly base level) =
      (sectionOf cwd base item).toText := by
    have hheaders : (filesOnly base level).headers = true := rfl
    rw [Block.toText, if_pos hheaders]
    rfl
  rw [ofBlocks, hclosing, List.append_nil, List.flatMap_map, List.flatMap_map]
  simp only [hblock]

/-- From equal texts of two documents of files with banners, the same paths can be told in the same
order, and the same contents, but for the blanks at the end of the last one: no ruler may stand in
the paths and contents, and the files can be read and minified. -/
theorem woven_text_eq_iff (cwd base : Path) (level : Option Minify.Level)
    (tree otherTree : Files.Tree) (items others : List Item)
    (hitems : ∀ item ∈ items, item.IsIn tree level)
    (hothers : ∀ other ∈ others, other.IsIn otherTree level)
    (hfree : ∀ item ∈ items, (sectionOf cwd base item).IsRulerFree)
    (hotherFree : ∀ other ∈ others, (sectionOf cwd base other).IsRulerFree) :
    ∃ woven otherWoven,
      wovenIn tree cwd (filesOnly base level) (items.map (·.file)) = (.ok woven, tree) ∧
      wovenIn otherTree cwd (filesOnly base level) (others.map (·.file)) =
        (.ok otherWoven, otherTree) ∧
      (woven.text = otherWoven.text ↔
        items.map (fun item => shownPath cwd base item.file) =
            others.map (fun other => shownPath cwd base other.file) ∧
          AgreeUpToEnd (items.map (·.content)) (others.map (·.content))) := by
  have hwoven {tree : Files.Tree} {items : List Item}
      (h : ∀ item ∈ items, item.IsIn tree level) :
      wovenIn tree cwd (filesOnly base level) (items.map (·.file)) =
        (.ok (ofBlocks cwd (filesOnly base level) (items.map (·.file)).length
          (items.map (Item.block level))), tree) := by
    have hnull : ∀ file ∈ items.map (·.file), '\x00' ∉ file.toText :=
      List.forall_mem_map.mpr fun item hitem =>
        Files.Tree.null_not_mem_of_text? (h item hitem).text
    have hlevel : (filesOnly base level).level = level := rfl
    rw [wovenIn_eq tree cwd _ hnull, hlevel, itemsOf_items h]
    rfl
  refine ⟨_, _, hwoven hitems, hwoven hothers, ?_⟩
  have hfree' : ∀ item ∈ items.map (sectionOf cwd base), item.IsRulerFree :=
    List.forall_mem_map.mpr hfree
  have hotherFree' : ∀ other ∈ others.map (sectionOf cwd base), other.IsRulerFree :=
    List.forall_mem_map.mpr hotherFree
  rw [ofBlocks_text, ofBlocks_text, strip_eq_iff, bodyOf_eq_iff hfree' hotherFree']
  simp only [List.map_map, Function.comp_def]
  rfl

/-- A file tree with nothing but some files in the root directory. -/
def rootWith (files : List (Path × Text)) : Files.Tree where
  root := .directory .ofDirectory
    (files.map fun file => (file.1.name, .file .ofFile (Utf8.encode file.2)))
  cwd := .root

/-- An empty file, one whose text looks like a title, and one that ends with blanks. -/
def lookalikes (ending : Text) : List (Path × Text) :=
  [(⟨.root, ["a".toList]⟩, []), (⟨.root, ["b".toList]⟩, "\nFile: c\n=".toList),
    (⟨.root, ["c".toList]⟩, "= ".toList ++ ending)]

/-- Files whose texts stand in a document as they are. -/
def keptItems (files : List (Path × Text)) : List Item :=
  files.map fun file => ⟨file.1, file.2, file.2⟩

/-- Blanks at the end of the last file are all that a document does not tell. -/
theorem woven_text_eq_lookalikes :
    ∃ woven otherWoven,
      wovenIn (rootWith (lookalikes [])) .root (filesOnly .root none)
          ((keptItems (lookalikes [])).map (·.file)) =
        (.ok woven, rootWith (lookalikes [])) ∧
      wovenIn (rootWith (lookalikes ['\n'])) .root (filesOnly .root none)
          ((keptItems (lookalikes ['\n'])).map (·.file)) =
        (.ok otherWoven, rootWith (lookalikes ['\n'])) ∧
      woven.text = otherWoven.text := by
  have hkept {ending : Text}
      (htexts : ∀ file ∈ lookalikes ending,
        (rootWith (lookalikes ending)).text? file.1 = some file.2) :
      ∀ item ∈ keptItems (lookalikes ending), item.IsIn (rootWith (lookalikes ending)) none :=
    List.forall_mem_map.mpr fun file hfile => ⟨htexts file hfile, rfl⟩
  obtain ⟨woven, otherWoven, hwoven, hother, hiff⟩ :=
    woven_text_eq_iff .root .root none (rootWith (lookalikes [])) (rootWith (lookalikes ['\n']))
      (keptItems (lookalikes [])) (keptItems (lookalikes ['\n'])) (hkept (by decide +kernel))
      (hkept (by decide +kernel)) (by decide +kernel) (by decide +kernel)
  exact ⟨woven, otherWoven, hwoven, hother, hiff.mpr (by decide +kernel)⟩

end Document

end SourceLoom
