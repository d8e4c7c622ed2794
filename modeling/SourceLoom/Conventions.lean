import SourceLoom.Text

/-!
# Conventions of a project

What a project agrees on about its references: which of them are aliases and what they stand for,
which file marks the root of the project, and which endings a reference may leave out.
-/

namespace SourceLoom

/-- The conventions by which references are read. -/
structure Conventions where
  /-- What an alias reference begins with. -/
  aliasMark : Text := "@/".toList
  /-- The directory under the project root that the alias mark stands for. -/
  aliasFolder : Text := "src".toList
  /-- The file that marks the root of a project. -/
  markerFile : Text := "package.json".toList
  /-- How many directories are searched for the marker, upwards from a file. -/
  searchLevels : Int := 10
  /-- The endings that a reference may leave out, in the order in which they are tried. -/
  extensions : List Text := [".js".toList, ".jsx".toList, ".ts".toList, ".tsx".toList,
    ".mjs".toList, ".cjs".toList]
  deriving DecidableEq, Repr

end SourceLoom
