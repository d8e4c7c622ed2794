import SourceLoom.Pattern.Fault

/-!
# The text of a pattern, token by token

A token is a character or a backslash with the character after it. The token that comes next is
known before it is taken, so a backslash at the very end is noticed as soon as the token before it
is taken.
-/

namespace SourceLoom.Pattern

/-- A token of a written pattern. -/
inductive Token where
  /-- A character. -/
  | plain (c : Char)
  /-- A character after a backslash. -/
  | escaped (c : Char)
  deriving DecidableEq, Repr

/-- The text of a token. -/
def Token.toText : Token → Text
  | plain c => [c]
  | escaped c => ['\\', c]

/-- What is left of a written pattern. -/
structure Source where
  /-- The position of the next token. -/
  position : Nat
  /-- The next token, if there is one. -/
  next : Option Token
  /-- What follows the next token. -/
  rest : Text
  deriving DecidableEq, Repr

namespace Source

/-- The source of a text that begins at a position. -/
def ofText (position : Nat) : Text → Except Fault Source
  | [] => .ok ⟨position, none, []⟩
  | ['\\'] => .error (.refused .endingBackslash (some position))
  | '\\' :: c :: rest => .ok ⟨position, some (.escaped c), rest⟩
  | c :: rest => .ok ⟨position, some (.plain c), rest⟩

/-- The source after the next token. -/
def advance (source : Source) : Except Fault Source :=
  match source.next with
  | none => .ok source
  | some token => ofText (source.position + token.toText.length) source.rest

/-- What is left has no more tokens than this. -/
def size (source : Source) : Nat := source.rest.length + 1

end Source

end SourceLoom.Pattern
