import SourceLoom.Text
import SourceLoom.Text.Quoted

/-!
# UTF-8

Reading bytes as text, strictly or with a stand-in for what is no text. Both readings cut the
bytes at the same places: a well-formed sequence is one character, and of an ill-formed one the
longest beginning that some character could have is one fault.
-/

namespace SourceLoom.Utf8

/-- What is wrong with a sequence of bytes. -/
inductive Defect where
  /-- No character begins with this byte. -/
  | invalidStart
  /-- The next byte does not continue the sequence. -/
  | invalidContinuation
  /-- The bytes end inside a sequence. -/
  | unexpectedEnd
  deriving DecidableEq, Repr

/-- How a sequence goes on after its first byte. -/
structure Opening where
  /-- The number of bytes that follow. -/
  following : Nat
  /-- The least value of the next byte. -/
  least : Nat
  /-- The greatest value of the next byte. -/
  greatest : Nat
  /-- The bits that the first byte contributes. -/
  bits : Nat

/-- The sequences that a byte can open. The narrower ranges of the second byte keep out
overlong forms, surrogates and what lies above the last code point. -/
def opening? (byte : Nat) : Option Opening :=
  if byte < 0x80 then some ⟨0, 0x80, 0xBF, byte⟩
  else if byte < 0xC2 then none
  else if byte < 0xE0 then some ⟨1, 0x80, 0xBF, byte - 0xC0⟩
  else if byte = 0xE0 then some ⟨2, 0xA0, 0xBF, 0⟩
  else if byte = 0xED then some ⟨2, 0x80, 0x9F, byte - 0xE0⟩
  else if byte < 0xF0 then some ⟨2, 0x80, 0xBF, byte - 0xE0⟩
  else if byte = 0xF0 then some ⟨3, 0x90, 0xBF, 0⟩
  else if byte < 0xF4 then some ⟨3, 0x80, 0xBF, byte - 0xF0⟩
  else if byte = 0xF4 then some ⟨3, 0x80, 0x8F, byte - 0xF0⟩
  else none

/-- Reads the bytes that follow an opening: the code point, or the defect and the number of
further bytes that still fitted. -/
def continuation : (following least greatest bits fitted : Nat) → List UInt8 →
    Except (Defect × Nat) Nat
  | 0, _, _, bits, _, _ => .ok bits
  | _ + 1, _, _, _, fitted, [] => .error (.unexpectedEnd, fitted)
  | following + 1, least, greatest, bits, fitted, byte :: bytes =>
    if least ≤ byte.toNat ∧ byte.toNat ≤ greatest then
      continuation following 0x80 0xBF (bits * 64 + (byte.toNat - 0x80)) (fitted + 1) bytes
    else .error (.invalidContinuation, fitted)

/-- A piece of the bytes: a character or a defect, and the number of bytes after the first. -/
inductive Piece where
  /-- A well-formed sequence. -/
  | character (c : Char) (further : Nat)
  /-- A beginning that no character completes. -/
  | defect (cause : Defect) (further : Nat)

/-- The piece that begins with a byte. -/
def piece (byte : UInt8) (bytes : List UInt8) : Piece :=
  match opening? byte.toNat with
  | none => .defect .invalidStart 0
  | some o =>
    match continuation o.following o.least o.greatest o.bits 0 bytes with
    | .ok code => .character (Char.ofNat code) o.following
    | .error (cause, fitted) => .defect cause fitted

/-- The pieces in order, each with the position of its first byte; `skip` bytes still belong to
the piece before. -/
def piecesFrom : (position skip : Nat) → List UInt8 → List (Nat × Piece)
  | _, _, [] => []
  | position, skip + 1, _ :: bytes => piecesFrom (position + 1) skip bytes
  | position, 0, byte :: bytes =>
    match piece byte bytes with
    | .character c further =>
      (position, .character c further) :: piecesFrom (position + 1) further bytes
    | .defect cause further =>
      (position, .defect cause further) :: piecesFrom (position + 1) further bytes

/-- A defect in its place. -/
structure Fault where
  /-- What is wrong. -/
  cause : Defect
  /-- The position of the first byte at fault. -/
  position : Nat
  /-- The number of bytes at fault after the first. -/
  further : Nat
  /-- The first byte at fault. -/
  byte : UInt8
  deriving DecidableEq, Repr

/-- The words for a defect. -/
def Defect.message : Defect → Text
  | .invalidStart => "invalid start byte".toList
  | .invalidContinuation => "invalid continuation byte".toList
  | .unexpectedEnd => "unexpected end of data".toList

/-- The message for a fault names the byte if it is one, and else the positions. -/
def Fault.message (fault : Fault) : Text :=
  let first := Nat.toDigits 10 fault.position
  let place :=
    if fault.further = 0 then
      "byte 0x".toList ++ Text.hex 2 fault.byte.toNat ++ " in position ".toList ++ first
    else
      "bytes in position ".toList ++ first ++ ['-'] ++
        Nat.toDigits 10 (fault.position + fault.further)
  "'utf-8' codec can't decode ".toList ++ place ++ ": ".toList ++ fault.cause.message

/-- The text of bytes that are all well formed, or the first fault. -/
def decode (bytes : List UInt8) : Except Fault Text :=
  (piecesFrom 0 0 bytes).mapM fun (position, piece) =>
    match piece with
    | .character c _ => .ok c
    | .defect cause further =>
      .error { cause, position, further, byte := bytes.getD position 0 }

/-- The text of any bytes, with the replacement character for every defect. -/
def decodeLossy (bytes : List UInt8) : Text :=
  (piecesFrom 0 0 bytes).map fun (_, piece) =>
    match piece with
    | .character c _ => c
    | .defect _ _ => '\uFFFD'

/-- The bytes of a text. -/
def encode (text : Text) : List UInt8 := text.flatMap String.utf8EncodeChar

/-- The number of bytes of a text. -/
def size (text : Text) : Nat := text.foldr (·.utf8Size + ·) 0

end SourceLoom.Utf8
