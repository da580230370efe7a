import ShiftReduce.Text.Bytes
import ShiftReduce.Text.Printable

/-! # Quoted text — a readable form without ambiguous characters

    A quoted text stands between double quotes.  Printable characters stand
    for themselves, except that a double quote and a backslash get a backslash
    in front; seven control characters have a letter of their own; all other
    characters, and bytes that are no text, are written in hexadecimal. -/

namespace ShiftReduce

namespace Text

/-- The lower case hexadecimal digit of a number below sixteen. -/
def hexDigit (n : Nat) : Char :=
  Nat.digitChar (n % 16)

/-- The last `width` hexadecimal digits of a number. -/
def hex : Nat → Nat → List Char
  | 0, _ => []
  | width + 1, n => hex width (n / 16) ++ [hexDigit n]

/-- The letter that stands for a control character behind a backslash. -/
def controlLetter? (n : Nat) : Option Char :=
  match n with
  | 7 => some 'a'
  | 8 => some 'b'
  | 9 => some 't'
  | 10 => some 'n'
  | 11 => some 'v'
  | 12 => some 'f'
  | 13 => some 'r'
  | _ => none

/-- A character as it is written inside quotes. -/
def escapeChar (c : Char) : List Char :=
  if c == '"' || c == '\\' then ['\\', c]
  else if isPrintable c then [c]
  else match controlLetter? c.toNat with
    | some l => ['\\', l]
    | none =>
      if c.toNat < 0x20 || c.toNat == 0x7F then '\\' :: 'x' :: hex 2 c.toNat
      else if c.toNat < 0x10000 then '\\' :: 'u' :: hex 4 c.toNat
      else '\\' :: 'U' :: hex 8 c.toNat

/-- A piece of a byte string as it is written inside quotes. -/
def escapePiece : Bytes.Piece → List Char
  | .char c => escapeChar c
  | .stray b => '\\' :: 'x' :: hex 2 b.toNat

/-- A text in quotes. -/
def quote (s : String) : String :=
  String.ofList ('"' :: s.toList.flatMap escapeChar ++ ['"'])

/-- A byte string in quotes. -/
def quoteBytes (bs : Bytes) : String :=
  String.ofList ('"' :: (Bytes.pieces bs).flatMap escapePiece ++ ['"'])

end Text

end ShiftReduce
