import SourceLoom.Proofs.Document.Unweaving
import SourceLoom.Proofs.Minify.Size

/-!
# What a woven document saves

A document reports how many characters its files had before they were minified and after. Each
file adds its own saving, which is negative only if fractions in it grow; so the reduction is not
negative unless these are more than what is removed from all the files.
-/

namespace SourceLoom.Document

/-- What minification saved of a block. -/
def Block.saved (block : Block) : Int :=
  match block.sizes with
  | some (before, after) => before - after
  | none => 0

/-- By how much the fractions of a file grow if files are minified. -/
def growth (level : Option Minify.Level) (file : Path × Text) : Int :=
  match level with
  | some _ => Minify.growth file.1 file.2
  | none => 0

/-- Adding up one after the other gives the sum. -/
theorem foldl_add_eq {α : Type} (size : α → Nat) (items : List α) (first : Int) :
    items.foldl (fun (total : Int) item => total + size item) first =
      first + (items.map fun item => (size item : Int)).sum := by
  induction items generalizing first with
  | nil => exact (Int.add_zero first).symm
  | cons item items ih =>
    rw [List.foldl_cons, ih, List.map_cons, List.sum_cons, Int.add_assoc]

/-- A document saves what its blocks save. -/
theorem reduction_ofBlocks (cwd : Path) (plan : Plan) (fileCount : Nat) (blocks : List Block) :
    (ofBlocks cwd plan fileCount blocks).savings.reduction = (blocks.map Block.saved).sum := by
  change (blocks.filterMap (·.sizes)).foldl (fun (total : Int) size => total + size.1) 0 -
    (blocks.filterMap (·.sizes)).foldl (fun (total : Int) size => total + size.2) 0 = _
  rw [foldl_add_eq, foldl_add_eq]
  induction blocks with
  | nil => rfl
  | cons block blocks ih =>
    rw [List.map_cons, List.sum_cons, ← ih, List.filterMap_cons, Block.saved]
    cases block.sizes with
    | none => exact (Int.zero_add _).symm
    | some sizes =>
      dsimp only
      rw [List.map_cons, List.map_cons, List.sum_cons, List.sum_cons]
      omega

/-- A block saves nothing less than its fractions grow. -/
theorem saved_block {level : Option Minify.Level} {item : Item}
    (h : contentOf level item.file item.text = .ok item.content) :
    0 ≤ (item.block level).saved + growth level (item.file, item.text) := by
  cases level with
  | none => exact Int.le_refl 0
  | some level =>
    have hlength := Minify.length_minify_le h
    change 0 ≤ ((item.text.length : Int) - item.content.length) + Minify.growth item.file item.text
    omega

/-- The reduction of a document of items is not negative, but for what the fractions of its files
grow. -/
theorem reduction_of_items (cwd : Path) (plan : Plan) (count : Nat) {files : List (Path × Text)}
    {items : List Item} (h : itemsOf plan.level files = .ok items) :
    0 ≤ (ofBlocks cwd plan count (items.map (Item.block plan.level))).savings.reduction +
      (files.map (growth plan.level)).sum := by
  obtain ⟨rfl, hcontents⟩ := itemsOf_eq_ok h
  rw [reduction_ofBlocks, List.map_map, List.map_map, ← List.sum_map_add]
  refine List.sum_nonneg fun saved hsaved => ?_
  obtain ⟨item, hitem, rfl⟩ := List.mem_map.mp hsaved
  exact saved_block (hcontents item hitem)

/-- A document is woven and saves nothing less than the fractions of its files grow, or it is not
woven for a file of JSON in which a number of too many digits stands. -/
theorem reduction_wovenIn (tree : Files.Tree) (cwd : Path) (plan : Plan) {files : List Path}
    (h : ∀ file ∈ files, '\x00' ∉ file.toText) :
    (∃ count, wovenIn tree cwd plan files = (.error (.minify (.tooManyDigits count)), tree) ∧
      plan.level.isSome = true ∧ ∃ file ∈ tree.readable files,
        Minify.Family.ofEnding (Minify.ending file.1) = .data ∧ Text.digitLimit < count ∧
          Json.HasDigits file.2 count) ∨
    ∃ woven, wovenIn tree cwd plan files = (.ok woven, tree) ∧
      0 ≤ woven.savings.reduction + ((tree.readable files).map (growth plan.level)).sum := by
  rw [wovenIn_eq tree cwd plan h]
  cases hitems : itemsOf plan.level (tree.readable files) with
  | error fault =>
    obtain ⟨count⟩ := fault
    obtain ⟨file, hfile, hfault⟩ := itemsOf_eq_error hitems
    obtain ⟨hlevel, hdigits⟩ := digits_of_contentOf hfault
    exact .inl ⟨count, rfl, hlevel, file, hfile, hdigits⟩
  | ok items => exact .inr ⟨_, rfl, reduction_of_items cwd plan files.length hitems⟩

/-- Minification makes a file longer by no more than its fractions grow, and only JSON that is read
with such a fraction. What a document saves is not negative, but for what the fractions of the files
in it grow. A file is minified, and a document without a null character in a path is woven, unless a
number of too many digits stands in JSON. -/
theorem minification_grows_by_fractions (content : Text) (path : Path) (level : Minify.Level)
    (tree : Files.Tree) (cwd : Path) (plan : Plan) {files : List Path}
    (hfiles : ∀ file ∈ files, '\x00' ∉ file.toText) :
    ((∃ count, minify content path level = .error (.tooManyDigits count) ∧
        Minify.Family.ofEnding (Minify.ending path) = .data ∧ Text.digitLimit < count ∧
          Json.HasDigits content count) ∨
      ∃ output, minify content path level = .ok output ∧
        (output.length : Int) ≤ content.length + Minify.growth path content ∧
        (content.length < output.length →
          Minify.Family.ofEnding (Minify.ending path) = .data ∧
            (∃ value, Json.read Text.digitLimit content = .ok value) ∧
            ∃ token ∈ Json.tokens content, ∃ x, Json.scalar none token = .ok (.float x, []) ∧
              token.length < (x.toText Json.numberLayout).length)) ∧
    ((∃ count, wovenIn tree cwd plan files = (.error (.minify (.tooManyDigits count)), tree) ∧
        plan.level.isSome = true ∧ ∃ file ∈ tree.readable files,
          Minify.Family.ofEnding (Minify.ending file.1) = .data ∧ Text.digitLimit < count ∧
            Json.HasDigits file.2 count) ∨
      ∃ woven, wovenIn tree cwd plan files = (.ok woven, tree) ∧
        0 ≤ woven.savings.reduction + ((tree.readable files).map (growth plan.level)).sum) := by
  refine ⟨?_, reduction_wovenIn tree cwd plan hfiles⟩
  cases houtput : minify content path level with
  | error fault =>
    obtain ⟨count⟩ := fault
    exact .inl ⟨count, rfl, Minify.digits_of_minify houtput⟩
  | ok output =>
    exact .inr ⟨output, rfl, Minify.length_minify_le houtput,
      Minify.exists_fraction_of_longer houtput⟩

/-- A file of JSON with nothing but a number. -/
def powerFiles : List (Path × Text) := [(.ofText "/a.json".toList, "1e5".toList)]

/-- A file with a number that is longer when it is written anew and one that is shorter, and a
script with a comment. -/
def mixedFiles : List (Path × Text) :=
  [(.ofText "/a.json".toList, "[1e2, 1.50]".toList), (.ofText "/b.js".toList, "a // b".toList)]

/-- A file that is longer has such a fraction, and the fractions of two files grow by one character,
for which the blanks and the comment in them make up. -/
theorem minification_grows_by_fractions_mixed :
    (∀ file ∈ mixedFiles.map (·.1), '\x00' ∉ file.toText) ∧
      minify "1e5".toList (.ofText "/a.json".toList) .light = .ok "100000.0".toList ∧
      (∃ token ∈ Json.tokens "1e5".toList, ∃ x, Json.scalar none token = .ok (.float x, []) ∧
        token.length < (x.toText Json.numberLayout).length) ∧
      (((rootWith mixedFiles).readable (mixedFiles.map (·.1))).map (growth (some .light))).sum = 1 ∧
      ∃ woven, wovenIn (rootWith mixedFiles) .root (filesOnly .root (some .light))
          (mixedFiles.map (·.1)) = (.ok woven, rootWith mixedFiles) ∧
        0 ≤ woven.savings.reduction + 1 := by
  have hnull : ∀ file ∈ mixedFiles.map (·.1), '\x00' ∉ file.toText := by decide
  have hsmall : minify "1e5".toList (.ofText "/a.json".toList) .light = .ok "100000.0".toList := by
    decide +kernel
  have hgrowth : (((rootWith mixedFiles).readable (mixedFiles.map (·.1))).map
      (growth (some .light))).sum = 1 := by decide +kernel
  have hwoven : (wovenIn (rootWith mixedFiles) .root (filesOnly .root (some .light))
      (mixedFiles.map (·.1))).1.isOk = true := by decide +kernel
  obtain ⟨⟨count, hfault, -⟩ | ⟨output, houtput, -, hfraction⟩, hdocument⟩ :=
    minification_grows_by_fractions "1e5".toList (.ofText "/a.json".toList) .light
      (rootWith mixedFiles) .root (filesOnly .root (some .light)) hnull
  · cases hsmall.symm.trans hfault
  cases hsmall.symm.trans houtput
  obtain ⟨-, -, htoken⟩ := hfraction (by decide)
  rcases hdocument with ⟨count, hfault, -⟩ | ⟨woven, hdone, hreduction⟩
  · rw [hfault] at hwoven
    cases hwoven
  · have hlevel : (filesOnly .root (some .light)).level = some .light := rfl
    rw [hlevel, hgrowth] at hreduction
    exact ⟨hnull, hsmall, htoken, hgrowth, woven, hdone, hreduction⟩

/-- A number that is written out makes its file longer, and the reduction of its document negative.
-/
theorem exists_content_grown :
    minify "1e5".toList (.ofText "/a.json".toList) .medium = .ok "100000.0".toList ∧
      ¬"100000.0".toList.length ≤ "1e5".toList.length ∧
      ∃ woven, wovenIn (rootWith powerFiles) .root (filesOnly .root (some .medium))
          (powerFiles.map (·.1)) = (.ok woven, rootWith powerFiles) ∧
        woven.savings.reduction = -5 := by
  have hwritten : minify "1e5".toList (.ofText "/a.json".toList) .medium =
      .ok "100000.0".toList := by decide +kernel
  have hnull : ∀ file ∈ powerFiles.map (·.1), '\x00' ∉ file.toText := by decide
  have hitems : itemsOf (some .medium) ((rootWith powerFiles).readable (powerFiles.map (·.1))) =
      .ok [⟨.ofText "/a.json".toList, "1e5".toList, "100000.0".toList⟩] := by decide +kernel
  have hlevel : (filesOnly .root (some .medium)).level = some .medium := rfl
  refine ⟨hwritten, by decide, ofBlocks .root (filesOnly .root (some .medium)) 1
    ([⟨.ofText "/a.json".toList, "1e5".toList, "100000.0".toList⟩].map
      (Item.block (some .medium))), ?_, by decide⟩
  rw [wovenIn_eq _ _ _ hnull, hlevel, hitems]
  rfl

end SourceLoom.Document
