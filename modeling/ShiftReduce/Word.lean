/-! # Words — whole numbers of 64 bits

    Dot positions and step numbers are signed words: behind the greatest of
    them comes the least. -/

namespace ShiftReduce

namespace Word

/-- The signed word that has the same 64 low bits as a number. -/
def wrap (n : Int) : Int :=
  (n + 9223372036854775808) % 18446744073709551616 - 9223372036854775808

/-- The word behind a word. -/
def next (n : Int) : Int :=
  wrap (n + 1)

/-- A number that fits into a word is its own word. -/
theorem wrap_of_fits {n : Int} (low : -9223372036854775808 ≤ n) (high : n < 9223372036854775808) :
    wrap n = n := by
  unfold wrap
  omega

/-- Below the greatest word, counting is plain addition. -/
theorem next_of_fits {n : Int} (low : -9223372036854775808 ≤ n) (high : n < 9223372036854775807) :
    next n = n + 1 :=
  wrap_of_fits (by omega) (by omega)

/-- Wrapping before counting makes no difference. -/
theorem next_wrap (n : Int) : next (wrap n) = wrap (n + 1) := by
  unfold next wrap
  omega

end Word

end ShiftReduce
