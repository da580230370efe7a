/-! # Spans — stretches of input

    A span runs from a byte position to the position just behind its end.
    Nothing forces the end behind the start: the length of a span that is
    turned around wraps in 64 bits. -/

namespace ShiftReduce

/-- A start position and the position behind the end. -/
structure Span where
  start : Nat
  stop : Nat
  deriving DecidableEq, Repr

namespace Span

/-- The span at the beginning of the input that covers nothing. -/
def zero : Span :=
  ⟨0, 0⟩

/-- The span that covers nothing at a position. -/
def point (position : Nat) : Span :=
  ⟨position, position⟩

/-- The length in 64-bit arithmetic. -/
def length (s : Span) : UInt64 :=
  UInt64.ofNat s.stop - UInt64.ofNat s.start

/-- Whether this is the zero span. -/
def isNull (s : Span) : Bool :=
  s.start == 0 && s.stop == 0

/-- The smallest span that covers both. -/
def extend (s t : Span) : Span :=
  ⟨min s.start t.start, max s.stop t.stop⟩

/-- A span as text. -/
def text (s : Span) : String :=
  "(" ++ toString s.start ++ "…" ++ toString s.stop ++ ")"

end Span

end ShiftReduce
