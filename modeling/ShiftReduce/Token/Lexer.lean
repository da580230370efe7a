import ShiftReduce.Token.Basic

/-! # The lexer — longest match among the terminals

    A *matcher* looks at one position of the input: the longest terminal counts
    that begins there, and a run of blanks at least as long goes first
    (`match?`).  Asked for a token, it passes over blanks and reports the next
    terminal, the end, or a position where it finds nothing (`search`).

    A `Tokenizer` hands out what the matcher reports.  Where the matcher finds
    nothing, one rune becomes a token of its own that no grammar knows, and the
    search goes on behind it.  The last token is the end of the input
    (`tokenize`). -/

namespace ShiftReduce

variable {σ : Type} [Alphabet σ]

/-! ## The matcher -/

namespace Lexer

/-- The blanks between tokens: space, tab, line feed, vertical tab, form feed
    and carriage return. -/
def isSpace (b : UInt8) : Bool :=
  b == 0x20 || (0x09 ≤ b && b ≤ 0x0D)

/-- The longer one of what has been found and another terminal, if the input
    begins with that. -/
def better (input : Bytes) (found : Option σ) (t : σ) : Option σ :=
  let here := Alphabet.spell t
  let beaten := match found with
    | some s => (Alphabet.spell s).length
    | none => 0
  if beaten < here.length && here.isPrefixOf input then some t else found

/-- The longest terminal that the input begins with.  The empty terminal does
    not count. -/
def longest (terminals : List σ) (input : Bytes) : Option σ :=
  terminals.foldl (better input) none

/-- What matches at the front of an input. -/
inductive Match (σ : Type) where
  | blanks (length : Nat)
  | terminal (t : σ)
  deriving DecidableEq, Repr

/-- The longest match at the front of an input, if there is one.  Between a run of
    blanks and a terminal of the same length, the blanks count. -/
def match? (terminals : List σ) (input : Bytes) : Option (Match σ) :=
  let run := (input.takeWhile isSpace).length
  match longest terminals input with
  | some t => if (Alphabet.spell t).length ≤ run then some (.blanks run) else some (.terminal t)
  | none => if 0 < run then some (.blanks run) else none

/-- What the matcher reports when it is asked for a token, with the number of
    bytes in front of it. -/
inductive Finding (σ : Type) where
  | ended
  | found (t : σ) (start : Nat)
  | stuck (start : Nat)
  deriving DecidableEq, Repr

/-- The same finding behind a number of bytes. -/
def Finding.behind (length : Nat) : Finding σ → Finding σ
  | .ended => .ended
  | .found t start => .found t (length + start)
  | .stuck start => .stuck (length + start)

/-- Passes over blanks until something else matches, nothing matches, or the
    input ends.  The fuel is for as many matches. -/
def search (terminals : List σ) : Nat → Bytes → Finding σ
  | 0, _ => .ended
  | _ + 1, [] => .ended
  | fuel + 1, b :: rest =>
    match match? terminals (b :: rest) with
    | some (.blanks n) => (search terminals fuel ((b :: rest).drop n)).behind n
    | some (.terminal t) => .found t 0
    | none => .stuck 0

end Lexer

/-! ## Token by token -/

/-- A lexer that hands out one token at a time and counts unmatched input if
    it is told to. -/
structure Tokenizer (σ : Type := Symbol) where
  terminals : List σ
  rest : Bytes
  position : Nat := 0
  finished : Bool := false
  counting : Bool := false
  unmatched : Nat := 0
  deriving DecidableEq, Repr

namespace Tokenizer

/-- Moves over a number of bytes. -/
def skip (k : Tokenizer σ) (length : Nat) : Tokenizer σ :=
  { k with rest := k.rest.drop length, position := k.position + length }

/-- Takes notice of unmatched input. -/
def note (k : Tokenizer σ) : Tokenizer σ :=
  if k.counting then { k with unmatched := k.unmatched + 1 } else k

/-- Hands out a number of bytes as a token, and goes on behind it. -/
def handOut (k : Tokenizer σ) (t : σ) (start size : Nat) : Token σ × Tokenizer σ :=
  let lexeme := (k.rest.drop start).take size
  let span : Span := ⟨k.position + start, k.position + start + size⟩
  ({ symbol := t, lexeme, span }, k.skip (start + size))

/-- Hands out the end of the input, which is the last token. -/
def finish (k : Tokenizer σ) : Token σ × Tokenizer σ :=
  let k := k.skip k.rest.length
  (Token.endAt k.position, { k with finished := true })

/-- The token for a finding.  Where nothing matches, that is a rune. -/
def answer (k : Tokenizer σ) : Lexer.Finding σ → Token σ × Tokenizer σ
  | .ended => k.finish
  | .found t start => k.handOut t start (Alphabet.spell t).length
  | .stuck start =>
    if start < k.rest.length then
      k.note.handOut Alphabet.unmatched start (Bytes.frontLength (k.rest.drop start))
    else k.note.finish

/-- The next token.  The end of the input is handed out again and again. -/
def next (k : Tokenizer σ) : Token σ × Tokenizer σ :=
  if k.finished then k.finish else k.answer (Lexer.search k.terminals k.rest.length k.rest)

/-- The tokens up to the end of the input, with fuel for as many. -/
def drain : Nat → Tokenizer σ → List (Token σ)
  | 0, _ => []
  | fuel + 1, k =>
    let step := k.next
    if step.2.finished then [step.1] else step.1 :: drain fuel step.2

end Tokenizer

/-- The tokens of an input.  Every token but the last covers at least one byte, so
    there is one more of them than there are bytes at most. -/
def Lexer.tokenize (terminals : List σ) (input : Bytes) : List (Token σ) :=
  Tokenizer.drain (input.length + 1) { terminals, rest := input }

end ShiftReduce
