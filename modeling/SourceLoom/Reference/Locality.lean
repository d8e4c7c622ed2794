import SourceLoom.Conventions

/-!
# Local and external references

A reference is local if it names a file of the project, and external if it names an installed
package. Its spelling alone decides, without any knowledge of what is installed.
-/

namespace SourceLoom.Reference

/-- Whether a reference names a file of the project. A name without a slash and a scoped name
with one slash are packages; whatever goes deeper is taken for a file. -/
def isLocal (conventions : Conventions) (reference : Text) : Bool :=
  if "./".toList.isPrefixOf reference || "../".toList.isPrefixOf reference then true
  else if "/".toList.isPrefixOf reference then true
  else if '/' ∉ reference then false
  else if conventions.aliasMark.isPrefixOf reference then true
  else if "@".toList.isPrefixOf reference && reference.count '/' = 1 then false
  else true

end SourceLoom.Reference
