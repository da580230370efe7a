/-! # Byte strings — UTF-8 text that may be damaged

    Input to be parsed is a list of bytes, usually UTF-8 but not necessarily.
    A *rune* is the longest well-formed UTF-8 sequence at the front; where
    there is none, one byte stands alone.

    A byte string is shown with the replacement character in place of every
    byte that stands alone (`toText`), and cannot be told back from that.
    Where it has to be, a byte that stands alone is kept as one of the last
    128 code points, which are private (`toKept`, `ofKept`). -/

namespace ShiftReduce

/-- A byte string. -/
abbrev Bytes := List UInt8

namespace Bytes

/-- The UTF-8 bytes of a text. -/
def ofText (s : String) : Bytes :=
  s.toList.flatMap String.utf8EncodeChar

/-- A continuation byte carries six bits. -/
def isTail (b : UInt8) : Bool :=
  0x80 ≤ b && b ≤ 0xBF

/-- The six bits of a continuation byte. -/
def tailBits (b : UInt8) : Nat :=
  b.toNat - 0x80

/-- The well-formed UTF-8 sequence at the front, as its code point and its
    length.  Overlong forms, surrogates and code points past U+10FFFF are
    not well-formed. -/
def frontRune? : Bytes → Option (Nat × Nat)
  | [] => none
  | a :: rest =>
    if a < 0x80 then some (a.toNat, 1)
    else if 0xC2 ≤ a && a ≤ 0xDF then
      match rest with
      | b :: _ =>
        if isTail b then some ((a.toNat - 0xC0) * 64 + tailBits b, 2) else none
      | _ => none
    else if 0xE0 ≤ a && a ≤ 0xEF then
      match rest with
      | b :: c :: _ =>
        if isTail b && isTail c && (a != 0xE0 || 0xA0 ≤ b) && (a != 0xED || b ≤ 0x9F) then
          some ((a.toNat - 0xE0) * 4096 + tailBits b * 64 + tailBits c, 3)
        else none
      | _ => none
    else if 0xF0 ≤ a && a ≤ 0xF4 then
      match rest with
      | b :: c :: d :: _ =>
        if isTail b && isTail c && isTail d && (a != 0xF0 || 0x90 ≤ b) && (a != 0xF4 || b ≤ 0x8F) then
          some ((a.toNat - 0xF0) * 262144 + tailBits b * 4096 + tailBits c * 64 + tailBits d, 4)
        else none
      | _ => none
    else none

/-- The length of the rune at the front: a byte that starts no well-formed
    sequence stands alone. -/
def frontLength (bs : Bytes) : Nat :=
  match frontRune? bs with
  | some (_, n) => n
  | none => 1

/-- A piece of decoded text: a character, or a byte that stands alone. -/
inductive Piece where
  | char (c : Char)
  | stray (b : UInt8)
  deriving DecidableEq, Repr

/-- The pieces from the front, skipping the `skip` bytes that an earlier
    piece covers. -/
def piecesFrom : Nat → Bytes → List Piece
  | _, [] => []
  | skip + 1, _ :: rest => piecesFrom skip rest
  | 0, b :: rest =>
    match frontRune? (b :: rest) with
    | some (code, n) => .char (Char.ofNat code) :: piecesFrom (n - 1) rest
    | none => .stray b :: piecesFrom 0 rest

/-- The text of a byte string as characters and stray bytes. -/
def pieces (bs : Bytes) : List Piece :=
  piecesFrom 0 bs

/-- The readable form of a piece. -/
def Piece.shown : Piece → Char
  | .char c => c
  | .stray _ => '\uFFFD'

/-- The readable form of a byte string, with U+FFFD for every stray byte. -/
def toText (bs : Bytes) : String :=
  String.ofList ((pieces bs).map Piece.shown)

/-- Whether a character is taken for a byte from `80` to `FF`. -/
def isKeeper (c : Char) : Bool :=
  0x10FF80 ≤ c.toNat

/-- The character that keeps a byte. -/
def keeper (b : UInt8) : Char :=
  Char.ofNat (0x10FF00 + b.toNat)

/-- A piece with its bytes kept.  A character that would be taken for a byte is
    given up to its own bytes. -/
def Piece.kept : Piece → List Char
  | .char c => if isKeeper c then (String.utf8EncodeChar c).map keeper else [c]
  | .stray b => [keeper b]

/-- A byte string as a text that loses nothing. -/
def toKept (bs : Bytes) : String :=
  String.ofList ((pieces bs).flatMap Piece.kept)

/-- The bytes of a character that may keep a byte. -/
def ofKeptChar (c : Char) : Bytes :=
  if isKeeper c then [UInt8.ofNat (c.toNat - 0x10FF00)] else String.utf8EncodeChar c

/-- The byte string that a text was made from. -/
def ofKept (s : String) : Bytes :=
  s.toList.flatMap ofKeptChar

/-- Byte strings joined by single blanks. -/
def joinBlank (parts : List Bytes) : Bytes :=
  [32].intercalate parts

end Bytes

end ShiftReduce
