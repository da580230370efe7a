/-! # Ranges of characters — properties given by tables

    A property of characters that no formula describes is a list of inclusive
    ranges of code points, in increasing order. -/

namespace ShiftReduce

namespace Text

/-- Inclusive ranges of code points. -/
abbrev CharRanges := List (Nat × Nat)

/-- Whether a character lies in one of the ranges. -/
def CharRanges.has (ranges : CharRanges) (c : Char) : Bool :=
  ranges.any fun r => r.1 ≤ c.toNat && c.toNat ≤ r.2

end Text

end ShiftReduce
