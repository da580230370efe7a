/-! # Switches — words for yes and no -/

namespace ShiftReduce

namespace Text

/-- The value of a word for yes or no. -/
def switch? (word : String) : Option Bool :=
  if ["1", "t", "T", "TRUE", "true", "True"].contains word then some true
  else if ["0", "f", "F", "FALSE", "false", "False"].contains word then some false
  else none

end Text

end ShiftReduce
