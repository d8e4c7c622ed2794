import SourceLoom.Proofs.Document.Savings

/-!
# The layout of a document

A document has its parts in a fixed order: every file that can be read, in the order of the files,
then the drawing of the project, the drawing of the files, and the prompt. While it is woven, the
files that go into it are told in this order, and those that cannot be read are left out of the
text, of the list of files, of what is told, and of the sizes before and after minification.

A file of JSON with a number of too many digits cannot be minified and ends the weaving.

Files that cannot be read are not left out of the number of files that decides about the drawing of
the files. So the drawing may be missing although there are few files in the document.
-/

namespace SourceLoom.Document

/-- A part of a document. -/
inductive Part where
  /-- A file with its content, and the path in its banner if it has one. -/
  | file (shown : Option Text) (content : Text)
  /-- A drawing of the project. -/
  | projectDrawing (drawing : Text)
  /-- A drawing of the files. -/
  | filesDrawing (drawing : Text)
  /-- A text to end with. -/
  | prompt (text : Text)
  deriving DecidableEq, Repr

/-- The text of a part. -/
def Part.toText : Part → Text
  | .file none content => content ++ ['\n']
  | .file (some shown) content => banner ("File: ".toList ++ shown) ++ content ++ ['\n']
  | .projectDrawing drawing => banner "Project Structure:".toList ++ drawing
  | .filesDrawing drawing => banner "Processed Files:".toList ++ drawing
  | .prompt text => banner "Prompt:".toList ++ text ++ ['\n']

/-- The part that an item has. -/
def partOf (cwd : Path) (plan : Plan) (item : Item) : Part :=
  .file (if plan.headers then some (shownPath cwd plan.base item.file) else none) item.content

/-- The drawing of the files, if it is shown when this many files are counted: only after another
drawing, and only if there are not too many files. -/
def Plan.shownDrawing? (plan : Plan) (count : Nat) : Option Text :=
  plan.projectDrawing.bind fun project =>
    plan.filesDrawing.filter fun drawing => drawing ≠ project ∧ count < drawingLimit

/-- The parts after the files when this many files are counted. -/
def closingParts (plan : Plan) (count : Nat) : List Part :=
  plan.projectDrawing.toList.map .projectDrawing ++
    (plan.shownDrawing? count).toList.map .filesDrawing ++
    (plan.prompt.filter fun prompt => prompt ≠ []).toList.map .prompt

/-- The parts of a document with some items when this many files are counted. -/
def partsOf (cwd : Path) (plan : Plan) (count : Nat) (items : List Item) : List Part :=
  items.map (partOf cwd plan) ++ closingParts plan count

/-- How long some items are before and after minification. -/
def sizesOf : Option Minify.Level → List Item → Savings
  | none, _ => ⟨0, 0⟩
  | some _, items =>
    ⟨(items.map fun item => (item.text.length : Int)).sum,
      (items.map fun item => (item.content.length : Int)).sum⟩

section Blocks

variable (cwd : Path) (plan : Plan) (count : Nat) (items : List Item)

/-- A block and the part of its item have the same text. -/
theorem toText_partOf (item : Item) :
    (item.block plan.level).toText cwd plan = (partOf cwd plan item).toText := by
  rw [Block.toText, partOf]
  cases plan.headers <;> rfl

/-- The parts after the files have the text that a document closes with. -/
theorem closing_eq : closing plan count =
    (closingParts plan count).flatMap Part.toText := by
  rw [closingParts, List.flatMap_append, List.flatMap_append, closing, Plan.shownDrawing?]
  congr 1
  · cases plan.projectDrawing with
    | none => rfl
    | some project =>
      cases plan.filesDrawing with
      | none => simp [Part.toText]
      | some drawing =>
        by_cases hshown : drawing ≠ project ∧ count < drawingLimit
        · simp [Part.toText, Option.filter, hshown]
        · simp [Part.toText, Option.filter, hshown]
  · cases plan.prompt with
    | none => rfl
    | some prompt => cases prompt <;> simp [Part.toText, Option.filter]

/-- A document of the blocks of some items has the text of their parts, stripped. -/
theorem text_ofBlocks :
    (ofBlocks cwd plan count (items.map (Item.block plan.level))).text =
      Text.strip ((partsOf cwd plan count items).flatMap Part.toText) := by
  rw [partsOf, List.flatMap_append, ← closing_eq, ofBlocks, List.flatMap_map, List.flatMap_map]
  simp only [toText_partOf]

/-- A document of the blocks of some items is of their files. -/
theorem files_ofBlocks :
    (ofBlocks cwd plan count (items.map (Item.block plan.level))).files = items.map (·.file) := by
  rw [ofBlocks, List.map_map]
  rfl

/-- A document of the blocks of some items has their sizes. -/
theorem savings_ofBlocks :
    (ofBlocks cwd plan count (items.map (Item.block plan.level))).savings =
      sizesOf plan.level items := by
  rw [ofBlocks, List.filterMap_map]
  cases plan.level with
  | none =>
    have hnone : items.filterMap ((·.sizes) ∘ Item.block none) = [] :=
      List.filterMap_eq_nil_iff.mpr fun _ _ => rfl
    rw [hnone]
    rfl
  | some level =>
    have hsome : items.filterMap ((·.sizes) ∘ Item.block (some level)) =
        items.map fun item => (item.text.length, item.content.length) :=
      (List.filterMap_congr fun _ _ => rfl).trans (congrFun List.filterMap_eq_map' items)
    rw [hsome]
    dsimp only
    rw [foldl_add_eq Prod.fst, foldl_add_eq Prod.snd, List.map_map, List.map_map, Int.zero_add,
      Int.zero_add]
    rfl

end Blocks

/-- A file tree in which a document is woven, and what has been told of it. -/
structure Hearing where
  /-- The file tree. -/
  tree : Files.Tree
  /-- What has been told, in order. -/
  events : List Event

namespace Hearing

/-- The file system of a hearing. -/
def system : Files.System (StateM Hearing) :=
  Files.Tree.system.lift fun operation hearing =>
    let (answer, tree) := operation.run hearing.tree
    (answer, { hearing with tree })

/-- Hears of an event. -/
def tell (event : Event) : StateM Hearing Unit :=
  modify fun hearing => { hearing with events := hearing.events ++ [event] }

end Hearing

/-- A document that is woven in a tree when somebody listens. -/
def heard (tree : Files.Tree) (cwd : Path) (plan : Plan) (files : List Path) :
    Except Fault Woven × Hearing :=
  (weave Hearing.system Hearing.tell cwd plan files).run.run ⟨tree, []⟩

/-- The file that an event says was added. -/
def Event.woven? : Event → Option Path
  | .woven file => some file
  | .skipped _ _ | .minified _ _ _ _ => none

/-- What is told of an item. -/
def eventsOf (level : Option Minify.Level) (item : Item) : List Event :=
  match level with
  | none => [.woven item.file]
  | some level =>
    [.minified item.file level item.text.length item.content.length, .woven item.file]

section Listening

variable {tree : Files.Tree} {level : Option Minify.Level} {file : Path} {files : List Path}

/-- The blocks of some files when somebody listens. -/
def heardBlocks (tree : Files.Tree) (level : Option Minify.Level) (files : List Path)
    (events : List Event) : Except Fault (List Block) × Hearing :=
  (blocks Hearing.system Hearing.tell level files).run.run ⟨tree, events⟩

/-- A file whose path is none ends the weaving. -/
theorem heardBlocks_of_null (h : tree.read file = .error .nullInPath) (events : List Event) :
    heardBlocks tree level (file :: files) events = (.error .nullInPath, ⟨tree, events⟩) := by
  have hread : (Hearing.system.read file).run.run ⟨tree, events⟩ =
      (.error .nullInPath, ⟨tree, events⟩) := congrArg (·, (⟨tree, events⟩ : Hearing)) h
  rw [heardBlocks, blocks, Run.Rehearsal.run_bind, run_attempt_readText hread]
  rfl

/-- Another file that cannot be read is told of and left out. -/
theorem heardBlocks_of_failed {cause : Files.Cause} {place : Path}
    (h : tree.read file = .error (.failed cause place)) (events : List Event) :
    heardBlocks tree level (file :: files) events =
      heardBlocks tree level files (events ++ [.skipped file (.failed cause place)]) := by
  have hread : (Hearing.system.read file).run.run ⟨tree, events⟩ =
      (.error (.failed cause place), ⟨tree, events⟩) := congrArg (·, (⟨tree, events⟩ : Hearing)) h
  rw [heardBlocks, blocks, Run.Rehearsal.run_bind, run_attempt_readText hread]
  rfl

/-- A file that cannot be minified ends the weaving. -/
theorem heardBlocks_of_fault {text : Text} {fault : Minify.Fault} (h : tree.text? file = some text)
    (hfault : contentOf level file text = .error fault) (events : List Event) :
    heardBlocks tree level (file :: files) events = (.error (.minify fault), ⟨tree, events⟩) := by
  unfold Files.Tree.text? at h
  split at h
  · rename_i bytes hbytes
    cases h
    have hread : (Hearing.system.read file).run.run ⟨tree, events⟩ =
        (.ok bytes, ⟨tree, events⟩) := congrArg (·, (⟨tree, events⟩ : Hearing)) hbytes
    rw [heardBlocks, blocks, Run.Rehearsal.run_bind, run_attempt_readText hread]
    dsimp only [Except.map]
    rw [Block.of_eq, hfault]
    rfl
  · cases h

/-- A file that can be read and minified is told of and has a block. -/
theorem heardBlocks_of_text {text content : Text} (h : tree.text? file = some text)
    (hcontent : contentOf level file text = .ok content) (events : List Event) :
    heardBlocks tree level (file :: files) events =
      match heardBlocks tree level files (events ++ eventsOf level ⟨file, text, content⟩) with
      | (.ok more, after) => (.ok (Item.block level ⟨file, text, content⟩ :: more), after)
      | (.error fault, after) => (.error fault, after) := by
  unfold Files.Tree.text? at h
  split at h
  · rename_i bytes hbytes
    cases h
    have hread : (Hearing.system.read file).run.run ⟨tree, events⟩ =
        (.ok bytes, ⟨tree, events⟩) := congrArg (·, (⟨tree, events⟩ : Hearing)) hbytes
    rw [heardBlocks, blocks, Run.Rehearsal.run_bind, run_attempt_readText hread]
    dsimp only [Except.map]
    rw [Block.of_eq, hcontent]
    -- What is told comes before the rest of the files.
    have hrest (told : List Event) (block : Block) :
        (blocks Hearing.system Hearing.tell level files >>=
          fun more => pure (block :: more)).run.run ⟨tree, told⟩ =
        match heardBlocks tree level files told with
        | (.ok more, after) => (.ok (block :: more), after)
        | (.error fault, after) => (.error fault, after) := by
      rw [Run.Rehearsal.run_bind, heardBlocks]
      rcases (blocks Hearing.system Hearing.tell level files).run.run ⟨tree, told⟩ with
        ⟨answer, later⟩
      cases answer <;> rfl
    cases level with
    | none => exact hrest _ _
    | some level =>
      rw [eventsOf, List.append_cons]
      exact hrest _ _
  · cases h

/-- Reading from a tree is refused for the path just if it has a null character. -/
theorem read_eq_nullInPath_iff : tree.read file = .error .nullInPath ↔ '\x00' ∈ file.toText := by
  constructor
  · intro h
    by_contra hnull
    exact Files.Tree.read_ne_nullInPath hnull tree h
  · intro hnull
    rw [Files.Tree.read, Files.Tree.node, Files.Tree.locate, if_pos hnull]
    rfl

/-- How weaving files ends when somebody listens, with what is told. -/
inductive Ends (tree : Files.Tree) (level : Option Minify.Level) (files : List Path) :
    Except Fault (List Block) → List Event → Prop
  /-- The path of a file has a null character. -/
  | null {told : List Event} (h : ∃ file ∈ files, '\x00' ∈ file.toText) :
      Ends tree level files (.error .nullInPath) told
  /-- A file that can be read cannot be minified. -/
  | fault {fault : Minify.Fault} {told : List Event}
      (h : ∃ file ∈ files, ∃ text, tree.text? file = some text ∧
        contentOf level file text = .error fault) :
      Ends tree level files (.error (.minify fault)) told
  /-- The files that can be read each have a block and are told of. -/
  | woven {items : List Item} {told : List Event} (hfiles : ∀ file ∈ files, '\x00' ∉ file.toText)
      (hitems : itemsOf level (tree.readable files) = .ok items)
      (hwoven : told.filterMap Event.woven? = items.map (·.file)) :
      Ends tree level files (.ok (items.map (Item.block level))) told

namespace Ends

variable {answer : Except Fault (List Block)} {told : List Event}

/-- A file before the others that cannot be read is only told of. -/
theorem skip {cause : Files.Cause} {place : Path} (h : Ends tree level files answer told)
    (hread : tree.read file = .error (.failed cause place)) :
    Ends tree level (file :: files) answer (.skipped file (.failed cause place) :: told) := by
  cases h with
  | null h => exact .null (List.exists_mem_cons_of_exists h)
  | fault h => exact .fault (List.exists_mem_cons_of_exists h)
  | @woven items _ hfiles hitems hwoven =>
    have hfile : '\x00' ∉ file.toText := by
      intro hnull
      cases (read_eq_nullInPath_iff.mpr hnull).symm.trans hread
    have htext : tree.text? file = none := by rw [Files.Tree.text?, hread]
    refine .woven (List.forall_mem_cons.mpr ⟨hfile, hfiles⟩) ?_ hwoven
    rw [Files.Tree.readable, List.filterMap_cons, htext]
    exact hitems

/-- A file before the others that can be read and minified is told of and has a block. -/
theorem weave {text content : Text} (h : Ends tree level files answer told)
    (htext : tree.text? file = some text) (hcontent : contentOf level file text = .ok content) :
    Ends tree level (file :: files) (answer.map (Item.block level ⟨file, text, content⟩ :: ·))
      (eventsOf level ⟨file, text, content⟩ ++ told) := by
  cases h with
  | null h => exact .null (List.exists_mem_cons_of_exists h)
  | fault h => exact .fault (List.exists_mem_cons_of_exists h)
  | @woven items _ hfiles hitems hwoven =>
    have hfile : '\x00' ∉ file.toText := Files.Tree.null_not_mem_of_text? htext
    have hfirst : (eventsOf level ⟨file, text, content⟩).filterMap Event.woven? = [file] := by
      cases level <;> rfl
    have hall : itemsOf level (tree.readable (file :: files)) =
        .ok (⟨file, text, content⟩ :: items) := by
      rw [Files.Tree.readable, List.filterMap_cons, htext]
      change itemsOf level ((file, text) :: tree.readable files) = _
      rw [itemsOf, hcontent, hitems]
      rfl
    refine .woven (List.forall_mem_cons.mpr ⟨hfile, hfiles⟩) hall ?_
    rw [List.filterMap_append, hfirst, hwoven]
    rfl

end Ends

/-- Weaving files ends in one of these ways when somebody listens, and changes nothing. -/
theorem exists_ends (tree : Files.Tree) (level : Option Minify.Level) (files : List Path)
    (events : List Event) :
    ∃ answer told, heardBlocks tree level files events = (answer, ⟨tree, events ++ told⟩) ∧
      Ends tree level files answer told := by
  induction files generalizing events with
  | nil =>
    refine ⟨.ok [], [], ?_, .woven (List.forall_mem_nil _) rfl rfl⟩
    rw [List.append_nil]
    rfl
  | cons file files ih =>
    cases htext : tree.text? file with
    | none =>
      cases hread : tree.read file with
      | ok bytes =>
        rw [Files.Tree.text?, hread] at htext
        cases htext
      | error fault =>
        cases fault with
        | nullInPath =>
          refine ⟨.error .nullInPath, [], ?_,
            .null ⟨file, List.mem_cons_self, read_eq_nullInPath_iff.mp hread⟩⟩
          rw [heardBlocks_of_null hread, List.append_nil]
        | failed cause place =>
          obtain ⟨answer, told, hrest, hends⟩ :=
            ih (events ++ [.skipped file (.failed cause place)])
          refine ⟨answer, _, ?_, hends.skip hread⟩
          rw [heardBlocks_of_failed hread, hrest, ← List.append_cons]
    | some text =>
      cases hcontent : contentOf level file text with
      | error fault =>
        refine ⟨.error (.minify fault), [], ?_,
          .fault ⟨file, List.mem_cons_self, text, htext, hcontent⟩⟩
        rw [heardBlocks_of_fault htext hcontent, List.append_nil]
      | ok content =>
        obtain ⟨answer, told, hrest, hends⟩ := ih (events ++ eventsOf level ⟨file, text, content⟩)
        refine ⟨_, _, ?_, hends.weave htext hcontent⟩
        rw [heardBlocks_of_text htext hcontent, hrest, List.append_assoc]
        cases answer <;> rfl

end Listening

/-- The files that can be read are some of the files. -/
theorem map_fst_readable (tree : Files.Tree) (files : List Path) :
    (tree.readable files).map (·.1) = files.filter fun file => (tree.text? file).isSome := by
  induction files with
  | nil => rfl
  | cons file files ih =>
    rw [Files.Tree.readable, List.filterMap_cons, List.filter_cons]
    cases tree.text? file with
    | none => exact ih
    | some text => exact congrArg (file :: ·) ih

/-- A document is woven in any tree and changes nothing there, unless the path of a file has a null
character, or a file that is read is JSON in which a number of too many digits stands and files are
minified. In it are the files that can be read, in their order, and these are told of in this order.
Its sizes are the sums of the sizes of their texts, and its text is that of its parts, stripped; all
the files are counted, also those left out. -/
theorem heard_layout (tree : Files.Tree) (cwd : Path) (plan : Plan) (files : List Path) :
    ∃ answer events, heard tree cwd plan files = (answer, ⟨tree, events⟩) ∧
      ((answer = .error .nullInPath ∧ ∃ file ∈ files, '\x00' ∈ file.toText) ∨
        (∃ count, answer = .error (.minify (.tooManyDigits count)) ∧ plan.level.isSome = true ∧
          ∃ file ∈ files, ∃ text, tree.text? file = some text ∧
            Minify.Family.ofEnding (Minify.ending file) = .data ∧ Text.digitLimit < count ∧
              Json.HasDigits text count) ∨
        ∃ woven items, answer = .ok woven ∧ (∀ file ∈ files, '\x00' ∉ file.toText) ∧
          itemsOf plan.level (tree.readable files) = .ok items ∧
          woven.files = files.filter (fun file => (tree.text? file).isSome) ∧
          events.filterMap Event.woven? = woven.files ∧
          woven.savings = sizesOf plan.level items ∧
          woven.text =
            Text.strip ((partsOf cwd plan files.length items).flatMap Part.toText)) := by
  have hrun : heard tree cwd plan files =
      match heardBlocks tree plan.level files [] with
      | (.ok blocks, after) => (.ok (ofBlocks cwd plan files.length blocks), after)
      | (.error fault, after) => (.error fault, after) := by
    rw [heard, weave, Run.Rehearsal.run_bind, heardBlocks]
    rcases (blocks Hearing.system Hearing.tell plan.level files).run.run ⟨tree, []⟩ with
      ⟨answer, later⟩
    cases answer <;> rfl
  obtain ⟨answer, told, hblocks, hends⟩ := exists_ends tree plan.level files []
  rw [hrun, hblocks]
  cases hends with
  | null hnull => exact ⟨_, told, rfl, .inl ⟨rfl, hnull⟩⟩
  | @fault fault _ hfault =>
    obtain ⟨file, hfile, text, htext, hfault⟩ := hfault
    obtain ⟨count⟩ := fault
    obtain ⟨hlevel, hdigits⟩ := digits_of_contentOf hfault
    exact ⟨_, told, rfl, .inr (.inl ⟨count, rfl, hlevel, file, hfile, text, htext, hdigits⟩)⟩
  | @woven items _ hfiles hitems hwoven =>
    have hlisted : items.map (·.file) = files.filter fun file => (tree.text? file).isSome := by
      rw [← map_fst_readable, ← (itemsOf_eq_ok hitems).1, List.map_map]
      rfl
    refine ⟨_, told, rfl, .inr (.inr ⟨_, items, rfl, hfiles, hitems, ?_, ?_,
      savings_ofBlocks cwd plan _ _, text_ofBlocks cwd plan _ _⟩)⟩
    · rw [files_ofBlocks, hlisted]
    · rw [files_ofBlocks, hwoven]

/-- Files of one character. -/
def letters (count : Nat) : List (Path × Text) :=
  (List.range count).map fun i => (⟨.root, [Text.ofNat i]⟩, ['x'])

/-- A document without banners, with two drawings. -/
def twoDrawings : Plan where
  base := .root
  headers := false
  level := none
  projectDrawing := some ['p']
  filesDrawing := some ['q']

/-- The drawing of the files may be missing although fewer files are woven than are too many: one
that is left out is counted too. -/
theorem exists_drawing_missing : ¬ ∀ (tree : Files.Tree) (cwd : Path) (plan : Plan)
    (files : List Path) (woven : Woven) (items : List Item),
    (heard tree cwd plan files).1 = .ok woven →
      itemsOf plan.level (tree.readable files) = .ok items →
        woven.text = Text.strip
          ((partsOf cwd plan woven.files.length items).flatMap Part.toText) := by
  intro hall
  have hheard : (heard (rootWith (letters 49)) .root twoDrawings
      (⟨.root, ["gone".toList]⟩ :: (letters 49).map (·.1))).1 =
        .ok ⟨Text.strip
          ((partsOf .root twoDrawings 50 (keptItems (letters 49))).flatMap Part.toText),
          (letters 49).map (·.1), ⟨0, 0⟩⟩ := by
    decide +kernel
  have hitems : itemsOf twoDrawings.level ((rootWith (letters 49)).readable
      (⟨.root, ["gone".toList]⟩ :: (letters 49).map (·.1))) = .ok (keptItems (letters 49)) := by
    decide +kernel
  have htext := hall _ _ _ _ _ _ hheard hitems
  revert htext
  decide +kernel

end SourceLoom.Document
