import ShiftReduce.Symbol
import ShiftReduce.Text.Bytes
import ShiftReduce.Token.Span

/-! # Tokens — input cut into terminals

    A lexer does not care what a terminal is, only how it is spelled
    (`Alphabet`).  The terminals of a grammar are texts and spelled in UTF-8.
    Byte strings are terminals as well, whether or not they are UTF-8; one of
    them may be a part of a rune. -/

namespace ShiftReduce

/-- Terminals that are spelled in bytes.  Two of them are not looked for in the
    input but stand for what else can be there: its end, and what nothing
    matches.  Their spelling is fixed. -/
class Alphabet (σ : Type) where
  spell : σ → Bytes
  endMarker : σ
  unmatched : σ
  spell_endMarker : spell endMarker = Bytes.ofText Symbol.endMarker
  spell_unmatched : spell unmatched = Bytes.ofText Symbol.unmatched

/-- Symbols of a grammar are spelled in UTF-8. -/
instance : Alphabet Symbol where
  spell := Bytes.ofText
  endMarker := Symbol.endMarker
  unmatched := Symbol.unmatched
  spell_endMarker := rfl
  spell_unmatched := rfl

/-- A byte string is its own spelling. -/
instance : Alphabet Bytes where
  spell := id
  endMarker := Bytes.ofText Symbol.endMarker
  unmatched := Bytes.ofText Symbol.unmatched
  spell_endMarker := rfl
  spell_unmatched := rfl

/-- What nothing matches is not taken for the end. -/
theorem Alphabet.unmatched_ne_endMarker {σ : Type} [Alphabet σ] :
    (Alphabet.unmatched : σ) ≠ Alphabet.endMarker := by
  intro h
  have hspell := congrArg Alphabet.spell h
  rw [Alphabet.spell_unmatched, Alphabet.spell_endMarker] at hspell
  exact absurd hspell (by decide)

/-- A terminal with the input that it was found in. -/
structure Token (σ : Type := Symbol) where
  symbol : σ
  lexeme : Bytes
  span : Span
  deriving DecidableEq, Repr

namespace Token

/-- The end of the input at a position. -/
def endAt {σ : Type} [Alphabet σ] (position : Nat) : Token σ :=
  { symbol := Alphabet.endMarker, lexeme := [], span := Span.point position }

/-- Whether this is the end of the input. -/
def isEnd (t : Token) : Bool :=
  t.symbol == Symbol.endMarker

/-- The bytes that a token shows: its lexeme, and the marker at the end of the
    input. -/
def shown (t : Token) : Bytes :=
  if t.isEnd then Bytes.ofText Symbol.endMarker else t.lexeme

/-- A token as text. -/
def text (t : Token) : String :=
  Bytes.toText t.shown

end Token

end ShiftReduce
