/-! # Grammar symbols — names and the three reserved ones

    A symbol is its name.  Three names are reserved: the empty word, the end
    of the input and the mark of input that no terminal matches.  A grammar
    declares none of them, so a parse table never has a column for the last
    and has a column for the end marker that no terminal shares. -/

namespace ShiftReduce

/-- A grammar symbol, terminal or nonterminal, is its name. -/
abbrev Symbol := String

namespace Symbol

/-- The empty word. -/
def epsilon : Symbol := "ε"

/-- The end of the input. -/
def endMarker : Symbol := "$"

/-- Input that no terminal matches. -/
def unmatched : Symbol := "#error"

/-- The names that no grammar may declare. -/
def isReserved (s : Symbol) : Bool :=
  s == epsilon || s == endMarker || s == unmatched

/-- A grammar may declare every symbol that is neither reserved nor empty. -/
def isDeclarable (s : Symbol) : Bool :=
  !isReserved s && s != ""

end Symbol

end ShiftReduce
