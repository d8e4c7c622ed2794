import SourceLoom.Files.System
import SourceLoom.Minify

/-!
# Woven documents

Many files woven into one text: each file after a banner with its path, then, if given, drawings
of the project and of the woven files, and a prompt. A file that cannot be read is left out, but one
that cannot be minified ends the weaving. Blanks at either end of the document are stripped.
-/

namespace SourceLoom.Document

variable {m : Type → Type} [Monad m]

/-- The line above and below a title. -/
def ruler : Text := List.replicate 50 '='

/-- The banner with a title. -/
def banner (title : Text) : Text :=
  '\n' :: ruler ++ '\n' :: title ++ '\n' :: ruler ++ ['\n', '\n']

/-- Drawings of more files than this are not worth their space. -/
def drawingLimit : Nat := 50

/-- What happens while a document is woven. -/
inductive Event where
  /-- A file was left out. -/
  | skipped (file : Path) (fault : Files.Fault)
  /-- A file was minified from so many to so many characters. -/
  | minified (file : Path) (level : Minify.Level) (before after : Nat)
  /-- A file was added. -/
  | woven (file : Path)
  deriving DecidableEq, Repr

/-- What ends the weaving of a document. -/
inductive Fault where
  /-- The path of a file is none. -/
  | nullInPath
  /-- A file cannot be minified. -/
  | minify (fault : Minify.Fault)
  deriving DecidableEq, Repr

/-- The message of a fault. -/
def Fault.message : Fault → Text
  | nullInPath => Files.Fault.nullInPath.message
  | minify fault => fault.message

/-- What a document is made of besides its files. -/
structure Plan where
  /-- The directory from which paths are shown. -/
  base : Path
  /-- Whether each file has a banner. -/
  headers : Bool := true
  /-- How files are minified, if they are. -/
  level : Option Minify.Level := some .aggressive
  /-- A drawing of the project. -/
  projectDrawing : Option Text := none
  /-- A drawing of the files. -/
  filesDrawing : Option Text := none
  /-- A text to end with. -/
  prompt : Option Text := none
  deriving DecidableEq, Repr

/-- A file in the document. -/
structure Block where
  /-- The file. -/
  file : Path
  /-- What stands in the document for it. -/
  content : Text
  /-- The number of characters before and after minification, if it was minified. -/
  sizes : Option (Nat × Nat)
  deriving DecidableEq, Repr

/-- The path of a file as its banner shows it. -/
def shownPath (cwd base file : Path) : Text :=
  Text.replaceChar '\\' '/' (file.shownFrom cwd base).toText

/-- The text of a block. -/
def Block.toText (cwd : Path) (plan : Plan) (block : Block) : Text :=
  (if plan.headers then banner ("File: ".toList ++ shownPath cwd plan.base block.file) else []) ++
    block.content ++ ['\n']

/-- The block of a file with a content. -/
def Block.of (level : Option Minify.Level) (file : Path) (content : Text) :
    Except Minify.Fault Block :=
  match level with
  | none => .ok ⟨file, content, none⟩
  | some level =>
    (minify content file level).map fun small =>
      ⟨file, small, some (content.length, small.length)⟩

/-- The blocks of the files that can be read. -/
def blocks (files : Files.System m) (tell : Event → m Unit) (level : Option Minify.Level) :
    List Path → ExceptT Fault m (List Block)
  | [] => pure []
  | file :: rest => do
    match ← Files.attempt (files.readText file) with
    | .error .nullInPath => throw .nullInPath
    | .error fault =>
      tell (.skipped file fault)
      blocks files tell level rest
    | .ok content =>
      match Block.of level file content with
      | .error fault => throw (.minify fault)
      | .ok block =>
        match level, block.sizes with
        | some level, some (before, after) => tell (.minified file level before after)
        | _, _ => pure ()
        tell (.woven file)
        return block :: (← blocks files tell level rest)

/-- The parts after the files. The drawing of the files follows that of the project if it is
another one and there are not too many files, those left out counted too. -/
def closing (plan : Plan) (fileCount : Nat) : Text :=
  (match plan.projectDrawing with
  | none => []
  | some project =>
    banner "Project Structure:".toList ++ project ++
      (match plan.filesDrawing with
      | none => []
      | some drawing =>
        if drawing ≠ project ∧ fileCount < drawingLimit then
          banner "Processed Files:".toList ++ drawing
        else [])) ++
  (match plan.prompt with
  | none => []
  | some prompt =>
    if prompt = [] then [] else banner "Prompt:".toList ++ prompt ++ ['\n'])

/-- A document and what went into it. -/
structure Woven where
  /-- The text of the document. -/
  text : Text
  /-- The files in it. -/
  files : List Path
  /-- What minification saved. -/
  savings : Savings
  deriving DecidableEq, Repr

/-- The document of some blocks. -/
def ofBlocks (cwd : Path) (plan : Plan) (fileCount : Nat) (blocks : List Block) : Woven :=
  let sizes := blocks.filterMap (·.sizes)
  { text := Text.strip (blocks.flatMap (·.toText cwd plan) ++ closing plan fileCount)
    files := blocks.map (·.file)
    savings := ⟨sizes.foldl (· + ·.1) 0, sizes.foldl (· + ·.2) 0⟩ }

/-- Weaves files into a document, in their order. -/
def weave (files : Files.System m) (tell : Event → m Unit) (cwd : Path) (plan : Plan)
    (paths : List Path) : ExceptT Fault m Woven := do
  return ofBlocks cwd plan paths.length (← blocks files tell plan.level paths)

end SourceLoom.Document
